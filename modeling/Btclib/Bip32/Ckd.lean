import Btclib.Bip32.KeyData

/-!
# Child key derivation with a cached scalar or point

`_derive` runs `__ckd` once per index over an `_ExtendedBIP32KeyData`: the key
record extended with a cached private scalar `q` and public point `Q`, so that
a multi-level path decodes the parent's key bytes only once.

**Algorithm (`__ckd`).** Depth grows by one and the index is set. For a
private key (`key[0] == 0`) the fingerprint hashes `bytes_from_point(q·G)`;
the HMAC input is `key ‖ ser32(i)` for a hardened index and
`bytes_from_point(q·G) ‖ ser32(i)` otherwise; the child scalar is
`(q + IL) mod n`. For a public key the fingerprint hashes the key bytes, a
hardened index raises, and the child point is `Q + IL·G`.

**Reference.** `referenceCkd` is the BIP32 step the way the specification
states it, from the key's 33 bytes alone, with no cache.

**Results.**
* `Coherent`: the cache agrees with the key bytes (scalar bytes for a private
  key, `bytes_from_point(Q)` for a public one).
* `ckd_simulates`: from a coherent state, `ckd` and `referenceCkd` both raise or
  give the same record and a coherent state.
-/

namespace Btclib
namespace Bip32

/-- `_ExtendedBIP32KeyData`: the key record with the cached `q` and `Q`. -/
structure ExtendedBIP32KeyData (P : Type) [AddCommGroup P] extends BIP32KeyData where
  q : Nat := 0
  Q : P := 0

variable {P : Type} [AddCommGroup P] (E : Env P)

/-- `__ckd`. -/
def ckd (xkey : ExtendedBIP32KeyData P) (index : Nat) :
    Except PyExc (ExtendedBIP32KeyData P) := do
  let xkey := { xkey with depth := xkey.depth + 1, index := index }
  let k0 ← getItem xkey.key 0
  if k0 = 0 then
    let qBytes ← E.ec.bytesFromPoint (E.ec.mult xkey.q)
    let parentFingerprint := (E.hashes.hash160 qBytes).take 4
    let hmac ←
      if xkey.isHardened then do
        let i ← natToBytes index 4 .big
        pure (E.hashes.hmacSha512 xkey.chainCode (xkey.key ++ i))
      else do
        let i ← natToBytes index 4 .big
        pure (E.hashes.hmacSha512 xkey.chainCode (qBytes ++ i))
    let offset := fromBytesBE (hmac.take 32)
    let q := (xkey.q + offset) % E.ec.n
    let key ← natToBytes q 32 .big
    pure
      { xkey with
        parentFingerprint := parentFingerprint, chainCode := hmac.drop 32, q := q
        key := 0 :: key, Q := 0 }
  else
    let parentFingerprint := (E.hashes.hash160 xkey.key).take 4
    if xkey.isHardened then
      throw (.btclibValueError "invalid hardened derivation from public key")
    let i ← natToBytes index 4 .big
    let hmac := E.hashes.hmacSha512 xkey.chainCode (xkey.key ++ i)
    let offset := fromBytesBE (hmac.take 32)
    let Q := xkey.Q + E.ec.mult offset
    let key ← E.ec.bytesFromPoint Q
    pure
      { xkey with
        parentFingerprint := parentFingerprint, chainCode := hmac.drop 32, Q := Q
        key := key, q := 0 }

/-! ## The reference step -/

/-- The BIP32 private step from the key bytes: fingerprint, `I`, child scalar. -/
def referenceCkdPrv (r : BIP32KeyData) (i : Nat) : Except PyExc (Bytes × Bytes × Nat) := do
  let q := fromBytesBE r.key.tail
  let pBytes ← E.ec.bytesFromPoint (E.ec.mult q)
  let data := (if 2 ^ 31 ≤ i then r.key else pBytes) ++ toBytesBE 4 i
  let I := E.hashes.hmacSha512 r.chainCode data
  pure ((E.hashes.hash160 pBytes).take 4, I, (q + fromBytesBE (I.take 32)) % E.ec.n)

/-- The BIP32 public step from the key bytes: fingerprint, `I`, child point. -/
def referenceCkdPub (r : BIP32KeyData) (i : Nat) : Except PyExc (Bytes × Bytes × P) := do
  if 2 ^ 31 ≤ i then throw (.btclibValueError "hardened derivation from a public key")
  let Q ← E.ec.pointFromOctets r.key
  let I := E.hashes.hmacSha512 r.chainCode (r.key ++ toBytesBE 4 i)
  pure ((E.hashes.hash160 r.key).take 4, I, Q + E.ec.mult (fromBytesBE (I.take 32)))

/-- The BIP32 single-step CKD, working from the 33 key bytes alone. -/
def referenceCkd (r : BIP32KeyData) (i : Nat) : Except PyExc BIP32KeyData :=
  if r.key.head? = some 0 then do
    let (fp, I, q) ← referenceCkdPrv E r i
    pure
      { r with
        depth := r.depth + 1, index := i, parentFingerprint := fp
        chainCode := I.drop 32, key := 0 :: toBytesBE 32 q }
  else do
    let (fp, I, Q) ← referenceCkdPub E r i
    let key ← E.ec.bytesFromPoint Q
    pure
      { r with
        depth := r.depth + 1, index := i, parentFingerprint := fp
        chainCode := I.drop 32, key := key }

/-- Every reference step increments the depth, sets the index and keeps the version. -/
theorem referenceCkd_fields {r r' : BIP32KeyData} {i : Nat} (h : referenceCkd E r i = .ok r') :
    r'.depth = r.depth + 1 ∧ r'.index = i ∧ r'.version = r.version := by
  unfold referenceCkd at h
  split at h
  · obtain ⟨⟨fp, I, q⟩, -, h⟩ := bind_eq_ok.1 h
    cases h
    exact ⟨rfl, rfl, rfl⟩
  · obtain ⟨⟨fp, I, Q⟩, -, h⟩ := bind_eq_ok.1 h
    obtain ⟨key, -, h⟩ := bind_eq_ok.1 h
    cases h
    exact ⟨rfl, rfl, rfl⟩

/-- A private record whose scalar is `0` admits no reference step. -/
theorem raises_referenceCkd_of_zero_scalar {r : BIP32KeyData} (hkey : r.key = 0 :: toBytesBE 32 0)
    (i : Nat) : Raises (referenceCkd E r i) := by
  obtain ⟨e, he⟩ := E.ec.raises_bytesFromPoint_zero
  exact ⟨e, by simp [referenceCkd, hkey, referenceCkdPrv, fromBytesBE_toBytesBE, he]⟩

/-- So a run from it raises, and so does whatever follows an empty run. -/
theorem raises_referenceRun_of_zero_scalar {α : Type} {r : BIP32KeyData}
    (hkey : r.key = 0 :: toBytesBE 32 0) {g : BIP32KeyData → Except PyExc α} (hg : Raises (g r)) :
    ∀ p : List Nat, Raises (p.foldlM (referenceCkd E) r >>= g)
  | [] => by simpa using hg
  | i :: p => by
      obtain ⟨e, he⟩ := raises_referenceCkd_of_zero_scalar E hkey i
      exact ⟨e, by simp [he]⟩

/-! ## Coherence of the cache -/

/-- The cache agrees with the key bytes. -/
def Coherent (w : ExtendedBIP32KeyData P) : Prop :=
  if w.key.head? = some 0 then w.key = 0 :: toBytesBE 32 w.q ∧ w.q < E.ec.n ∧ w.Q = 0
  else (w.key.head? = some 2 ∨ w.key.head? = some 3) ∧ w.q = 0 ∧
    E.ec.bytesFromPoint w.Q = .ok w.key

/-- `_derive`'s simulation relation: a coherent state over the reference record. -/
def Simulates (w : ExtendedBIP32KeyData P) (r : BIP32KeyData) : Prop :=
  Coherent E w ∧ w.toBIP32KeyData = r

theorem coherent_prv {w : ExtendedBIP32KeyData P} (h : w.key = 0 :: toBytesBE 32 w.q)
    (hq : w.q < E.ec.n) (hQ : w.Q = 0) : Coherent E w := by
  simp [Coherent, h, hq, hQ]

theorem coherent_pub {w : ExtendedBIP32KeyData P} (hq : w.q = 0)
    (hb : E.ec.bytesFromPoint w.Q = .ok w.key) : Coherent E w := by
  obtain ⟨⟨-, hp, -⟩, -⟩ := E.ec.bytesFromPoint_spec hb
  have h0 : w.key.head? ≠ some 0 := by rcases hp with h | h <;> rw [h] <;> decide
  simp [Coherent, h0, hp, hq, hb]

theorem scalar_lt_pow {x : Nat} : x % E.ec.n < 256 ^ 32 :=
  E.ec.lt_of_lt_n (Nat.mod_lt _ E.ec.n_pos)

/-- A scalar reduced mod `n` always fits in the 32 bytes of `to_bytes(32)`. -/
theorem natToBytes_scalar (x : Nat) :
    natToBytes (x % E.ec.n) 32 .big = .ok (toBytesBE 32 (x % E.ec.n)) :=
  natToBytes_big (scalar_lt_pow E)

theorem isHardened_iff (k : BIP32KeyData) (i : Nat) :
    ({ k with index := (i : Int) }).isHardened = true ↔ 2 ^ 31 ≤ i := by
  simp [BIP32KeyData.isHardened]

/-- One step from a coherent state matches one reference step. -/
theorem ckd_simulates {w : ExtendedBIP32KeyData P} {r : BIP32KeyData} {i : Nat}
    (hi : i < 2 ^ 32) (h : Simulates E w r) :
    ResultRel (Simulates E) (ckd E w i) (referenceCkd E r i) := by
  obtain ⟨hc, rfl⟩ := h
  have hi4 : i < 256 ^ 4 := by norm_num; omega
  unfold Coherent at hc
  split_ifs at hc with h0
  · obtain ⟨hw, hq, hQ⟩ := hc
    have hqq : fromBytesBE (toBytesBE 32 w.q) = w.q := E.ec.fromBytesBE_toBytesBE_scalar hq
    rcases hp : E.ec.bytesFromPoint (E.ec.mult w.q) with e | pBytes
    · simp [ckd, referenceCkd, referenceCkdPrv, hw, hqq, hp]
    · by_cases hh : 2147483648 ≤ i <;>
        simp [ckd, referenceCkd, referenceCkdPrv, hw, hqq, hp, BIP32KeyData.isHardened, hh,
          natToBytes_big hi4, natToBytes_scalar, Simulates] <;>
        exact coherent_prv E rfl (Nat.mod_lt _ E.ec.n_pos) rfl
  · obtain ⟨hp2, hq0, hb⟩ := hc
    obtain ⟨c, t, hkey⟩ := List.exists_cons_of_ne_nil
      (show w.key ≠ [] from fun h => by simp [h] at hp2)
    have hc0 : c ≠ 0 := by rintro rfl; simp [hkey] at h0
    have hdec := (E.ec.bytesFromPoint_spec hb).2
    rw [hkey] at hdec
    by_cases hh : 2147483648 ≤ i
    · simp [ckd, referenceCkd, referenceCkdPub, hkey, hc0, BIP32KeyData.isHardened, hh]
    · rcases hQ : E.ec.bytesFromPoint (w.Q + E.ec.mult (fromBytesBE
        ((E.hashes.hmacSha512 w.chainCode (c :: (t ++ toBytesBE 4 i))).take 32))) with e | key
      · simp [ckd, referenceCkd, referenceCkdPub, hkey, hc0, BIP32KeyData.isHardened, hh,
          natToBytes_big hi4, hdec, hQ]
      · simp [ckd, referenceCkd, referenceCkdPub, hkey, hc0, BIP32KeyData.isHardened, hh,
          natToBytes_big hi4, hdec, hQ, Simulates]
        exact coherent_pub E rfl hQ

/-- From a public key, `ckd` succeeds only at a normal index, and then yields a
public key whose cached point encodes to its key bytes. -/
theorem ckd_pub {w w' : ExtendedBIP32KeyData P} {i : Nat} (h0 : w.key.head? ≠ some 0)
    (h : ckd E w i = .ok w') : i < 2 ^ 31 ∧ w'.key.head? ≠ some 0 ∧ Coherent E w' := by
  rcases hw : w.key with _ | ⟨c, t⟩
  · simp [ckd, hw, getItem] at h
  have hc : c ≠ 0 := by simpa [hw] using h0
  by_cases hh : 2147483648 ≤ i
  · simp [ckd, hw, hc, BIP32KeyData.isHardened, hh] at h
  obtain ⟨ib, -, h⟩ := bind_eq_ok.1 (by simpa [ckd, hw, hc, BIP32KeyData.isHardened, hh] using h)
  obtain ⟨key, hkey, h⟩ := bind_eq_ok.1 h
  cases h
  have hsec := (E.ec.bytesFromPoint_spec hkey).1
  have hhead : key.head? ≠ some 0 := by rcases hsec.2.1 with h | h <;> simp [h]
  exact ⟨by omega, hhead, coherent_pub E rfl hkey⟩

/-- What a `ckd` call that returns leaves: one level deeper, the version kept,
and a coherent cache over a key of the same kind. -/
theorem ckd_eq_ok {w w' : ExtendedBIP32KeyData P} {i : Nat} (h : ckd E w i = .ok w') :
    w'.depth = w.depth + 1 ∧ w'.version = w.version ∧ Coherent E w' ∧
      (w'.key.head? = some 0 ↔ w.key.head? = some 0) := by
  rcases hw : w.key with _ | ⟨c, t⟩
  · simp [ckd, hw, getItem] at h
  by_cases hc : c = 0
  · subst hc
    simp only [ckd, hw, getItem_cons_zero, ok_bind, if_true] at h
    obtain ⟨qBytes, -, h⟩ := bind_eq_ok.1 h
    have hw' : w'.depth = w.depth + 1 ∧ w'.version = w.version ∧
        ∃ q, q < E.ec.n ∧ w'.q = q ∧ w'.key = 0 :: toBytesBE 32 q ∧ w'.Q = 0 := by
      split at h <;>
      · obtain ⟨ib, -, h⟩ := bind_eq_ok.1 h
        simp only [pure_bind, natToBytes_scalar, ok_bind, pure_eq_ok, Except.ok.injEq] at h
        subst h
        exact ⟨rfl, rfl, _, Nat.mod_lt _ E.ec.n_pos, rfl, rfl, rfl⟩
    obtain ⟨hd, hv, q, hq, hwq, hkey, hQ⟩ := hw'
    exact ⟨hd, hv, coherent_prv E (hwq ▸ hkey) (hwq ▸ hq) hQ, by simp [hkey]⟩
  · obtain ⟨hi, h0', hcoh⟩ := ckd_pub E (by simpa [hw] using hc) h
    have hh : ¬ 2147483648 ≤ i := by omega
    obtain ⟨ib, -, h⟩ := bind_eq_ok.1 (by simpa [ckd, hw, hc, BIP32KeyData.isHardened, hh] using h)
    obtain ⟨key, -, h⟩ := bind_eq_ok.1 h
    cases h
    exact ⟨rfl, rfl, hcoh, by simpa [hc] using h0'⟩

/-- A run of `ckd` from a public key raises as soon as the path holds a hardened index. -/
theorem raises_ckdRun_of_hardened :
    ∀ {p : List Nat} {w : ExtendedBIP32KeyData P}, w.key.head? ≠ some 0 →
      (∃ i ∈ p, 2 ^ 31 ≤ i) → Raises (p.foldlM (ckd E) w)
  | i :: p, w, h0, ⟨j, hj, hh⟩ => by
      rw [List.foldlM_cons]
      rcases hc : ckd E w i with e | w'
      · exact ⟨e, rfl⟩
      obtain ⟨hi, h0', -⟩ := ckd_pub E h0 hc
      refine raises_ckdRun_of_hardened h0' ⟨j, ?_, hh⟩
      rcases List.mem_cons.1 hj with rfl | hj
      · omega
      · exact hj

/-! ## The reference step on valid keys -/

/-- One derivation step of a record: the fields every step sets. -/
def child (r : BIP32KeyData) (i : Nat) (fp I key : Bytes) : BIP32KeyData :=
  { r with
    depth := r.depth + 1, index := i, parentFingerprint := fp, chainCode := I.drop 32
    key := key }

theorem prvKeyOk_of_head {r : BIP32KeyData} (hr : r.Valid E) (h0 : r.key.head? = some 0) :
    r.PrvKeyOk E := by
  rcases hr.key_ok with h | ⟨-, -, -, hp, -⟩
  · exact h
  · rcases hp with h | h <;> simp [h] at h0

theorem pubKeyOk_of_head {r : BIP32KeyData} (hr : r.Valid E) (h0 : r.key.head? ≠ some 0) :
    r.PubKeyOk E := by
  rcases hr.key_ok with ⟨-, h, -⟩ | h
  · exact absurd h h0
  · exact h

/-- A child record is valid when its new fields have the right sizes and key material. -/
theorem valid_child {r : BIP32KeyData} (hr : r.Valid E) (hd : r.depth < 255) {i : Nat}
    (hi : i < 2 ^ 32) {fp I key : Bytes} (hfp : fp.length = 4) (hI : I.length = 64)
    (hkey : key.length = 33)
    (hk : (child r i fp I key).PrvKeyOk E ∨ (child r i fp I key).PubKeyOk E) :
    (child r i fp I key).Valid E where
  version_length := hr.version_length
  depth_nonneg := by simp [child]; have := hr.depth_nonneg; omega
  depth_le := by simp [child]; omega
  fingerprint_length := hfp
  index_nonneg := by simp [child]
  index_le := by simp [child]; omega
  chainCode_length := by simp [child, hI]
  key_length := by simpa [child] using hkey
  key_ok := hk
  zero_depth h := by simp [child] at h; have := hr.depth_nonneg; omega

theorem length_fingerprint (b : Bytes) : ((E.hashes.hash160 b).take 4).length = 4 := by
  simp [E.hashes.length_hash160]

/-- The private reference step of a valid key always succeeds. -/
theorem referenceCkd_prv {r : BIP32KeyData} (hr : r.Valid E) (h0 : r.key.head? = some 0)
    (i : Nat) :
    ∃ fp I q, referenceCkdPrv E r i = .ok (fp, I, q) ∧ fp.length = 4 ∧ I.length = 64 ∧
      q < E.ec.n ∧ referenceCkd E r i = .ok (child r i fp I (0 :: toBytesBE 32 q)) := by
  obtain ⟨-, -, hq0, hqn⟩ := prvKeyOk_of_head E hr h0
  have hne : E.ec.mult (fromBytesBE r.key.tail) ≠ 0 := by
    rw [Ne, E.ec.mult_eq_zero_iff, Nat.mod_eq_of_lt hqn]
    omega
  obtain ⟨pBytes, hp, -⟩ := E.ec.bytesFromPoint_ok _ hne
  let I := E.hashes.hmacSha512 r.chainCode ((if 2 ^ 31 ≤ i then r.key else pBytes) ++ toBytesBE 4 i)
  exact ⟨(E.hashes.hash160 pBytes).take 4, I, (fromBytesBE r.key.tail + fromBytesBE (I.take 32)) % E.ec.n,
    by simp [referenceCkdPrv, hp, I], length_fingerprint E _, E.hashes.length_hmacSha512 _ _,
    Nat.mod_lt _ E.ec.n_pos, by simp [referenceCkd, h0, referenceCkdPrv, hp, child, I]⟩

/-- The public reference step of a valid key at a normal index computes its point. -/
theorem referenceCkdPub_ok {r : BIP32KeyData} (hr : r.Valid E) (h0 : r.key.head? ≠ some 0)
    {i : Nat} (hi : i < 2 ^ 31) :
    ∃ fp I Q, referenceCkdPub E r i = .ok (fp, I, Q) ∧ fp.length = 4 ∧ I.length = 64 ∧
      referenceCkd E r i = (E.ec.bytesFromPoint Q >>= fun key => .ok (child r i fp I key)) := by
  obtain ⟨-, -, hsec⟩ := pubKeyOk_of_head E hr h0
  obtain ⟨Q, hQ, -⟩ := E.ec.pointFromOctets_ok _ hsec
  have hh : ¬ 2147483648 ≤ i := by omega
  let I := E.hashes.hmacSha512 r.chainCode (r.key ++ toBytesBE 4 i)
  exact ⟨(E.hashes.hash160 r.key).take 4, I, Q + E.ec.mult (fromBytesBE (I.take 32)),
    by simp [referenceCkdPub, hh, hQ, I], length_fingerprint E _, E.hashes.length_hmacSha512 _ _,
    by simp [referenceCkd, h0, referenceCkdPub, hh, hQ, child, I]⟩

theorem raises_referenceCkd_hardened {r : BIP32KeyData} (h0 : r.key.head? ≠ some 0) {i : Nat}
    (hi : 2 ^ 31 ≤ i) : Raises (referenceCkd E r i) := by
  have hh : 2147483648 ≤ i := by omega
  simp [referenceCkd, h0, referenceCkdPub, hh]

end Bip32
end Btclib
