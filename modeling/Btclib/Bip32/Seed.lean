import Btclib.Bip32.Derive

/-!
# Root keys and account-level derivation

`_rootxprv_from_seed` builds the master private key of a seed of 128 to 512
bits: the HMAC-SHA512 of the seed under the key `b"Bitcoin seed"` is split into
the scalar (left half, behind a `0x00` prefix) and the chain code (right half),
at depth 0 with a zero parent fingerprint and index. The version must be a
private one, and the `BIP32KeyData` constructor runs `assert_valid`, which
also rejects a left half that is not a scalar in `(0, n)`.

`_derive_from_account` derives `m/branch/address_index` below an account-level
key, which must be hardened; both indexes must be normal, and the branch is
0 or 1 unless the caller lifts that restriction.

**Results.**
* `rootxprvFromSeedData_eq_ok_iff`: when the master key is built, and which
  key it is.
* `rootxprvFromSeed_b58decode`: the Base58Check text of a master key reads
  back as that key.
* `deriveFromAccountData_eq_ok`: what account-level derivation returns sits
  two levels down, at the address index, with the account's version.
-/

namespace Btclib
namespace Bip32

variable {P : Type} [AddCommGroup P] (E : Env P)

/-- `b"Bitcoin seed"`, the HMAC key of master key generation. -/
def bitcoinSeed : Bytes :=
  [0x42, 0x69, 0x74, 0x63, 0x6f, 0x69, 0x6e, 0x20, 0x73, 0x65, 0x65, 0x64]

/-- The `BIP32KeyData(...)` that `_rootxprv_from_seed` builds from the HMAC. -/
def rootKey (hmac version : Bytes) : BIP32KeyData where
  version := version
  depth := 0
  parentFingerprint := [0, 0, 0, 0]
  index := 0
  chainCode := hmac.drop 32
  key := 0 :: hmac.take 32

/-- `_rootxprv_from_seed`. -/
def rootxprvFromSeedData (seed version : Bytes) : Except PyExc BIP32KeyData := do
  let bitlenght := seed.length * 8
  if bitlenght < 128 then
    throw (.btclibValueError ("too few bits for seed: " ++ toString bitlenght ++ " in \x27" ++
      hexString seed ++ "\x27"))
  if bitlenght > 512 then
    throw (.btclibValueError ("too many bits for seed: " ++ toString bitlenght ++ " in \x27" ++
      hexString seed ++ "\x27"))
  let hmac := E.hashes.hmacSha512 bitcoinSeed seed
  let v ← bytesFromOctets version 4
  if v ∉ E.xprvVersionsAll then
    throw (.btclibValueError ("unknown private key version: " ++ hexBytes v))
  let xkey := rootKey hmac v
  xkey.assertValid E
  pure xkey

/-- `rootxprv_from_seed`: the Base58Check text of the master key. -/
def rootxprvFromSeed (seed version : Bytes) : Except PyExc Bytes := do
  let xkey ← rootxprvFromSeedData E seed version
  xkey.b58encode E true

/-- The master scalar of a seed: the left half of its HMAC. -/
def masterScalar (seed : Bytes) : Nat :=
  fromBytesBE ((E.hashes.hmacSha512 bitcoinSeed seed).take 32)

/-- The root key of a private version is valid exactly when its scalar is in `(0, n)`. -/
theorem valid_rootKey_iff {seed version : Bytes} (hv : version ∈ E.xprvVersionsAll) :
    (rootKey (E.hashes.hmacSha512 bitcoinSeed seed) version).Valid E ↔
      0 < masterScalar E seed ∧ masterScalar E seed < E.ec.n := by
  have hl := E.hashes.length_hmacSha512 bitcoinSeed seed
  constructor
  · intro hk
    rcases hk.key_ok with ⟨-, -, h0, hn⟩ | ⟨hpub, -⟩
    · exact ⟨h0, hn⟩
    · exact absurd hv hpub
  · intro ⟨h0, hn⟩
    exact ⟨E.networks.length_xprv version hv, le_refl _, by simp [rootKey], rfl, le_refl _,
      by simp [rootKey], by simp [rootKey, hl], by simp [rootKey, hl], .inl ⟨hv, rfl, h0, hn⟩,
      fun _ => ⟨rfl, rfl⟩⟩

/-- What `_rootxprv_from_seed` returns is the root key of the seed under the
version, and it passed `assert_valid`. -/
theorem rootKey_of_rootxprvFromSeedData {seed version : Bytes} {k : BIP32KeyData}
    (hk : rootxprvFromSeedData E seed version = .ok k) :
    k = rootKey (E.hashes.hmacSha512 bitcoinSeed seed) version ∧ k.assertValid E = .ok () := by
  simp only [rootxprvFromSeedData, bytesFromOctets] at hk
  split_ifs at hk <;> simp_all [bind_eq_ok]
  split_ifs at hk
  obtain ⟨⟨⟩, hv, hk⟩ := bind_eq_ok.1 hk
  cases hk
  exact ⟨rfl, hv⟩

theorem rootxprvFromSeedData_eq_ok_iff (seed version : Bytes) (k : BIP32KeyData) :
    rootxprvFromSeedData E seed version = .ok k ↔
      16 ≤ seed.length ∧ seed.length ≤ 64 ∧ version ∈ E.xprvVersionsAll ∧
        0 < masterScalar E seed ∧ masterScalar E seed < E.ec.n ∧
          k = rootKey (E.hashes.hmacSha512 bitcoinSeed seed) version := by
  by_cases hv : version ∈ E.xprvVersionsAll
  · have hl := E.networks.length_xprv version hv
    simp only [rootxprvFromSeedData, bytesFromOctets, hl, if_true, hv, not_true, if_false,
      ite_eq_iff, throw_eq_error, error_bind, reduceCtorEq, false_and, and_false, false_or,
      or_false, pure_bind, ok_bind, bind_unit_eq_ok, BIP32KeyData.assertValid_eq_ok_iff,
      valid_rootKey_iff E hv, pure_eq_ok, Except.ok.injEq, true_and, not_lt, gt_iff_lt]
    constructor
    · rintro ⟨h1, h2, ⟨h3, h4⟩, rfl⟩
      exact ⟨by omega, by omega, h3, h4, rfl⟩
    · rintro ⟨h1, h2, h3, h4, rfl⟩
      exact ⟨by omega, by omega, ⟨h3, h4⟩, rfl⟩
  · simp only [rootxprvFromSeedData, hv, false_and, and_false, iff_false]
    split_ifs <;> simp [bytesFromOctets]; split_ifs <;> simp [hv]

theorem rootxprvFromSeed_b58decode {seed version : Bytes} {s : Bytes}
    (h : rootxprvFromSeed E seed version = .ok s) :
    BIP32KeyData.b58decode E s true =
      .ok (rootKey (E.hashes.hmacSha512 bitcoinSeed seed) version) := by
  obtain ⟨k, hk, hs⟩ := bind_eq_ok.1 h
  obtain ⟨rfl, hv⟩ := rootKey_of_rootxprvFromSeedData E hk
  have hdec := BIP32KeyData.b58decode_b58encode E ((BIP32KeyData.assertValid_eq_ok_iff E _).1 hv)
  rwa [hs, ok_bind] at hdec

/-- Modelled from the spec: the indexes that `indexes_from_bip32_path`, which is
not among the sources, reads from the path text `m/branch/address_index`. -/
def accountPath (branch addressIndex : Nat) : List Nat :=
  [branch, addressIndex]

/-- `_derive_from_account`. -/
def deriveFromAccountData (xkey : BIP32Key) (branch addressIndex : Nat) (branches01Only : Bool) :
    Except PyExc BIP32KeyData := do
  let xkey ← xkey.decode E
  if ¬ xkey.isHardened then
    throw (.userWarning "invalid public derivation at account level")
  if branch ≥ 0x80000000 then
    throw (.btclibValueError "invalid private derivation at branch level")
  if branches01Only ∧ branch ∉ [0, 1] then
    throw (.btclibValueError ("invalid branch: " ++ toString branch ++ " not in (0, 1)"))
  if addressIndex ≥ 0x80000000 then
    throw (.btclibValueError "invalid private derivation at address index level")
  deriveData E (.data xkey) (accountPath branch addressIndex) none

/-- `derive_from_account`. -/
def deriveFromAccount (xkey : BIP32Key) (branch addressIndex : Nat) (branches01Only : Bool) :
    Except PyExc Bytes := do
  let xkey ← deriveFromAccountData E xkey branch addressIndex branches01Only
  xkey.b58encode E true

theorem deriveFromAccountData_eq_ok {k k' : BIP32KeyData} (hk : k.Valid E)
    {branch addressIndex : Nat} {branches01Only : Bool}
    (h : deriveFromAccountData E (.data k) branch addressIndex branches01Only = .ok k') :
    k.isHardened = true ∧ branch < 2 ^ 31 ∧ addressIndex < 2 ^ 31 ∧
      k'.depth = k.depth + 2 ∧ k'.index = addressIndex ∧ k'.version = k.version := by
  simp only [deriveFromAccountData, BIP32Key.decode_data, ok_bind, ite_eq_iff, throw_eq_error,
    error_bind, reduceCtorEq, false_and, and_false, false_or, or_false, pure_bind, not_not,
    ge_iff_le, not_le] at h
  obtain ⟨hh, hb, -, ha, hd⟩ := h
  have hdepth : k.depth + (accountPath branch addressIndex).length ≤ 255 := by
    by_contra hc
    simp [deriveData, not_le.1 hc] at hd
  have hrun := (deriveData_resultRel E hk (by simp [accountPath]; omega) hdepth none).eq_ok hd
  simp only [forceVersion, pure_eq_ok, bind_ok] at hrun
  obtain ⟨hdep, hidx, hver⟩ := referenceRun_fields E hrun
  exact ⟨hh, hb, ha, by simpa [accountPath] using hdep, by simpa [accountPath] using hidx, hver⟩

/-- A hardened key at depth 3 over the toy master key's scalar and chain code. -/
def accountKey : BIP32KeyData :=
  { masterKey with depth := 3, index := 0x80000000, parentFingerprint := [1, 2, 3, 4] }

/-- Its child `1/5`, as `deriveFromAccountData` computes it. -/
def accountChild : BIP32KeyData :=
  { version := slip132Networks.mainnet.bip32Prv, depth := 5, parentFingerprint := [2, 0, 0, 0],
    index := 5, chainCode := 2 :: List.replicate 31 0, key := List.replicate 32 0 ++ [2] }

theorem deriveFromAccountData_eq_ok_at_accountKey :
    accountKey.Valid modSevenEnv ∧
      deriveFromAccountData modSevenEnv (.data accountKey) 1 5 true = .ok accountChild ∧
      accountKey.isHardened = true ∧ 1 < 2 ^ 31 ∧ 5 < 2 ^ 31 ∧
        accountChild.depth = accountKey.depth + 2 ∧ accountChild.index = (5 : Nat) ∧
        accountChild.version = accountKey.version := by
  have hk : accountKey.Valid modSevenEnv :=
    (BIP32KeyData.assertValid_eq_ok_iff modSevenEnv accountKey).1 (by decide)
  have hd : deriveFromAccountData modSevenEnv (.data accountKey) 1 5 true = .ok accountChild := by
    decide
  exact ⟨hk, hd, deriveFromAccountData_eq_ok modSevenEnv hk hd⟩

end Bip32
end Btclib
