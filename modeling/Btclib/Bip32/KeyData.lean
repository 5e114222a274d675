import Btclib.Collaborators
import Btclib.Network

/-!
# BIP32 extended keys: validation and the 78-byte codec

This module models `BIP32KeyData` of `bip32.py`: the record, its
`assert_valid`, and the codec

* `serialize`: `version(4) ‖ depth(1) ‖ parent_fingerprint(4) ‖ index(4) ‖
  chain_code(32) ‖ key(33)`, big-endian, after validation;
* `deserialize`: six `stream.read` calls, which return fewer bytes at the end
  of the input, then validation;
* `b58encode` / `b58decode`: Base58Check around the binary form, with the
  decoded length checked against 78.

The record's fields have their declared Python types, so the `isinstance`
checks of `assert_valid` (which raise `BTClibTypeError`) always pass and are
not modelled; `depth` and `index` are Python ints and may be negative.

**Results.**
* `assertValid_eq_ok_iff`: `assert_valid` passes exactly on `Valid` keys.
* `deserialize_serialize`: a valid key survives the binary round trip.
* `serialize_deserialize`: whatever `deserialize` accepts had at least 78
  bytes, and re-serializes to its first 78.
-/

namespace Btclib
namespace Bip32

/-- The services and tables `bip32.py` runs against. -/
structure Env (P : Type) [AddCommGroup P] where
  ec : Secp P
  hashes : Hashes
  base58 : Base58
  networks : Networks

/-- The lawful services of `Btclib.Collaborators` with the published tables. -/
def modSevenEnv : Env (ZMod 7) where
  ec := modSevenCurve
  hashes := paddingHashes
  base58 := letterBase58
  networks := slip132Networks

variable {P : Type} [AddCommGroup P] (E : Env P)

/-- `_XPRV_VERSIONS_ALL`. -/
def Env.xprvVersionsAll : List Bytes :=
  Btclib.xprvVersionsAll E.networks.mainnet E.networks.testnet

/-- `_XPUB_VERSIONS_ALL`. -/
def Env.xpubVersionsAll : List Bytes :=
  Btclib.xpubVersionsAll E.networks.mainnet E.networks.testnet

theorem Env.not_mem_xpub_of_mem_xprv {v : Bytes} (h : v ∈ E.xprvVersionsAll) :
    v ∉ E.xpubVersionsAll :=
  E.networks.prv_not_pub v h

/-- `_EXPECTED_DECODED_LENGHT`. -/
def expectedDecodedLenght : Nat := 78

/-- `BIP32KeyData`, with the defaults of its dataclass fields. -/
structure BIP32KeyData where
  version : Bytes := []
  depth : Int := -1
  parentFingerprint : Bytes := []
  index : Int := -1
  chainCode : Bytes := []
  key : Bytes := []
deriving DecidableEq, Repr

namespace BIP32KeyData

/-- `is_hardened`. -/
def isHardened (k : BIP32KeyData) : Bool :=
  decide (0x80000000 ≤ k.index)

/-- `ec.y(x)` inside `try: ... except BTClibValueError: raise BTClibValueError(msg)`. -/
def tryY (x : Nat) (msg : String) : Except PyExc Unit :=
  match E.ec.y x with
  | .ok _ => pure ()
  | .error (.btclibValueError _) => throw (.btclibValueError msg)
  | .error e => throw e

theorem tryY_eq_ok_iff (x : Nat) (msg : String) :
    tryY E x msg = .ok () ↔ (E.ec.y x).toBool = true := by
  unfold tryY
  rcases E.ec.y x with e | y
  · cases e <;> simp [Except.toBool]
  · simp [Except.toBool]

/-- The key-material block of `assert_valid` (`if self.version in _XPRV_VERSIONS_ALL: ...`). -/
def assertValidKey (k : BIP32KeyData) : Except PyExc Unit :=
  if k.version ∈ E.xprvVersionsAll then do
    let k0 ← getItem k.key 0
    require (k0 = 0) ("invalid private key prefix: 0x" ++ hexBytes (k.key.take 1))
    let q := fromBytesBE (k.key.drop 1)
    require (0 < q ∧ q < E.ec.n) ("invalid private key not in 1..n-1: " ++ hexInt q)
  else if k.version ∈ E.xpubVersionsAll then do
    let k0 ← getItem k.key 0
    require (k0 = 2 ∨ k0 = 3)
      ("invalid public key prefix not in (0x02, 0x03): 0x" ++ hexBytes (k.key.take 1))
    tryY E (fromBytesBE (k.key.drop 1)) ("invalid public key: 0x" ++ hexBytes k.key)
  else
    throw (.btclibValueError ("unknown extended key version: 0x" ++ hexBytes k.version))

/-- `assert_valid`. -/
def assertValid (k : BIP32KeyData) : Except PyExc Unit := do
  require (k.version.length = 4)
    ("invalid version length: " ++ toString k.version.length ++ " bytes instead of 4")
  require (0 ≤ k.depth ∧ k.depth ≤ 255) ("invalid depth: " ++ toString k.depth)
  require (k.parentFingerprint.length = 4)
    ("invalid parent fingerprint length: " ++ toString k.parentFingerprint.length ++
      " bytes instead of 4")
  require (0 ≤ k.index ∧ k.index ≤ 0xFFFFFFFF) ("invalid index: " ++ toString k.index)
  require (k.chainCode.length = 32)
    ("invalid chain code length: " ++ toString k.chainCode.length ++ " bytes instead of 32")
  require (k.key.length = 33)
    ("invalid key length: " ++ toString k.key.length ++ " bytes instead of 33")
  assertValidKey E k
  if k.depth = 0 then
    require (k.parentFingerprint = [0, 0, 0, 0])
      ("zero depth with non-zero parent fingerprint: 0x" ++ hexBytes k.parentFingerprint)
    require (k.index = 0) ("zero depth with non-zero index: " ++ toString k.index)

/-- The key material of a private key: version, `0x00` prefix, scalar in `(0, n)`. -/
def PrvKeyOk (k : BIP32KeyData) : Prop :=
  k.version ∈ E.xprvVersionsAll ∧ k.key.head? = some 0 ∧
    0 < fromBytesBE k.key.tail ∧ fromBytesBE k.key.tail < E.ec.n

/-- The key material of a public key: version, and a compressed point. -/
def PubKeyOk (k : BIP32KeyData) : Prop :=
  k.version ∉ E.xprvVersionsAll ∧ k.version ∈ E.xpubVersionsAll ∧ SecPubkey E.ec.y k.key

/-- What `assert_valid` checks, as a proposition. -/
structure Valid (k : BIP32KeyData) : Prop where
  version_length : k.version.length = 4
  depth_nonneg : 0 ≤ k.depth
  depth_le : k.depth ≤ 255
  fingerprint_length : k.parentFingerprint.length = 4
  index_nonneg : 0 ≤ k.index
  index_le : k.index ≤ 0xFFFFFFFF
  chainCode_length : k.chainCode.length = 32
  key_length : k.key.length = 33
  key_ok : PrvKeyOk E k ∨ PubKeyOk E k
  zero_depth : k.depth = 0 → k.parentFingerprint = [0, 0, 0, 0] ∧ k.index = 0

theorem assertValidKey_eq_ok_iff (k : BIP32KeyData) (hl : k.key.length = 33) :
    assertValidKey E k = .ok () ↔ PrvKeyOk E k ∨ PubKeyOk E k := by
  obtain ⟨version, depth, fp, index, cc, key⟩ := k
  obtain ⟨c, t, rfl⟩ : ∃ c t, key = c :: t := ⟨key.headD 0, key.tail, by
    cases key <;> simp_all⟩
  simp only [List.length_cons, Nat.add_right_cancel_iff] at hl
  by_cases hprv : version ∈ E.xprvVersionsAll
  · simp only [assertValidKey, PrvKeyOk, PubKeyOk, hprv, if_true, getItem_cons_zero, ok_bind,
      require_bind]
    split_ifs <;> simp_all
  · by_cases hpub : version ∈ E.xpubVersionsAll
    · simp only [assertValidKey, PrvKeyOk, PubKeyOk, SecPubkey, hprv, hpub, if_true, if_false,
        getItem_cons_zero, ok_bind, require_bind]
      split_ifs <;> simp_all [tryY_eq_ok_iff]
    · simp [assertValidKey, PrvKeyOk, PubKeyOk, hprv, hpub]

theorem assertValid_eq_ok_iff (k : BIP32KeyData) : k.assertValid E = .ok () ↔ k.Valid E := by
  simp only [assertValid, bind_unit_eq_ok, require_eq_ok_iff, ite_pure_eq_ok]
  constructor
  · rintro ⟨h1, h2, h3, h4, h5, h6, hkey, hz⟩
    exact ⟨h1, h2.1, h2.2, h3, h4.1, h4.2, h5, h6, (assertValidKey_eq_ok_iff E k h6).1 hkey, hz⟩
  · intro hv
    exact ⟨hv.version_length, ⟨hv.depth_nonneg, hv.depth_le⟩, hv.fingerprint_length,
      ⟨hv.index_nonneg, hv.index_le⟩, hv.chainCode_length, hv.key_length,
      (assertValidKey_eq_ok_iff E k hv.key_length).2 hv.key_ok, hv.zero_depth⟩

/-! ## The binary and Base58Check codec -/

/-- `serialize`. -/
def serialize (k : BIP32KeyData) (assertValid : Bool) : Except PyExc Bytes := do
  if assertValid then k.assertValid E
  let depth ← intToBytes k.depth 1 .big
  let index ← intToBytes k.index 4 .big
  pure (k.version ++ depth ++ k.parentFingerprint ++ index ++ k.chainCode ++ k.key)

/-- `deserialize`: six reads from a `BytesIO` stream, then validation. -/
def deserialize (xkeyBin : Bytes) (assertValid : Bool) : Except PyExc BIP32KeyData := do
  let (version, stream) := read 4 xkeyBin
  let (depth, stream) := read 1 stream
  let (parentFingerprint, stream) := read 4 stream
  let (index, stream) := read 4 stream
  let (chainCode, stream) := read 32 stream
  let (key, _) := read 33 stream
  let xkey : BIP32KeyData :=
    { version := version, depth := fromBytesBE depth, parentFingerprint := parentFingerprint,
      index := fromBytesBE index, chainCode := chainCode, key := key }
  if assertValid then xkey.assertValid E
  pure xkey

/-- `b58encode`. -/
def b58encode (k : BIP32KeyData) (assertValid : Bool) : Except PyExc Bytes := do
  let dataBinary ← k.serialize E assertValid
  pure (E.base58.b58encode dataBinary)

/-- `b58decode` of a `str`: stripped, decoded, length-checked, deserialized. -/
def b58decode (dataStr : Bytes) (assertValid : Bool) : Except PyExc BIP32KeyData := do
  let dataDecoded ← E.base58.b58decode (strip dataStr) none
  if assertValid ∧ dataDecoded.length ≠ expectedDecodedLenght then
    throw (.btclibValueError ("invalid decoded length: " ++ toString dataDecoded.length ++
      " instead of " ++ toString expectedDecodedLenght))
  deserialize E dataDecoded assertValid

/-- The record the six reads of `deserialize` produce. -/
def readFields (b : Bytes) : BIP32KeyData :=
  { version := b.take 4
    depth := fromBytesBE ((b.drop 4).take 1)
    parentFingerprint := ((b.drop 4).drop 1).take 4
    index := fromBytesBE ((((b.drop 4).drop 1).drop 4).take 4)
    chainCode := ((((b.drop 4).drop 1).drop 4).drop 4).take 32
    key := (((((b.drop 4).drop 1).drop 4).drop 4).drop 32).take 33 }

theorem deserialize_eq (b : Bytes) (v : Bool) :
    deserialize E b v =
      if v then (readFields b).assertValid E >>= fun _ => pure (readFields b)
      else pure (readFields b) := by
  cases v <;> rfl

theorem deserialize_true_eq_ok_iff (b : Bytes) (k : BIP32KeyData) :
    deserialize E b true = .ok k ↔ readFields b = k ∧ k.Valid E := by
  rw [deserialize_eq]
  simp only [if_true, bind_unit_eq_ok, pure_eq_ok, Except.ok.injEq]
  constructor
  · rintro ⟨h, rfl⟩
    exact ⟨rfl, (assertValid_eq_ok_iff E _).1 h⟩
  · rintro ⟨rfl, h⟩
    exact ⟨(assertValid_eq_ok_iff E _).2 h, rfl⟩

/-- The 78 serialized bytes of a key whose depth and index fit. -/
def layout (k : BIP32KeyData) : Bytes :=
  k.version ++ toBytesBE 1 k.depth.toNat ++ k.parentFingerprint ++ toBytesBE 4 k.index.toNat ++
    k.chainCode ++ k.key

theorem serialize_of_valid {k : BIP32KeyData} (hk : k.Valid E) :
    k.serialize E true = .ok (layout k) := by
  have hd : intToBytes k.depth 1 .big = .ok (toBytesBE 1 k.depth.toNat) :=
    (intToBytes_eq_ok_iff _ _ _ _).2 ⟨hk.depth_nonneg, by have := hk.depth_le; omega, rfl⟩
  have hi : intToBytes k.index 4 .big = .ok (toBytesBE 4 k.index.toNat) :=
    (intToBytes_eq_ok_iff _ _ _ _).2 ⟨hk.index_nonneg, by have := hk.index_le; omega, rfl⟩
  simp [serialize, (assertValid_eq_ok_iff E k).2 hk, hd, hi, layout]

/-- Validating serialization fails exactly on invalid keys. -/
theorem raises_serialize_iff (k : BIP32KeyData) : Raises (k.serialize E true) ↔ ¬ k.Valid E := by
  refine ⟨fun h hk => raises_ok _ ((serialize_of_valid E hk) ▸ h), fun hk => ?_⟩
  rcases ha : k.assertValid E with e | u
  · simp [serialize, ha]
  · exact absurd ((assertValid_eq_ok_iff E k).1 ha) hk

theorem raises_b58encode_iff (k : BIP32KeyData) : Raises (k.b58encode E true) ↔ ¬ k.Valid E := by
  rw [← raises_serialize_iff]
  simp [b58encode, raises_bind]

theorem readFields_layout {k : BIP32KeyData} (hk : k.Valid E) : readFields (layout k) = k := by
  have hd : (k.depth.toNat : Int) = k.depth := Int.toNat_of_nonneg hk.depth_nonneg
  have hi : (k.index.toNat : Int) = k.index := Int.toNat_of_nonneg hk.index_nonneg
  have hd' : k.depth.toNat % 256 ^ 1 = k.depth.toNat := Nat.mod_eq_of_lt (by
    have := hk.depth_le; omega)
  have hi' : k.index.toNat % 256 ^ 4 = k.index.toNat := Nat.mod_eq_of_lt (by
    have := hk.index_le; omega)
  simp only [readFields, layout, List.append_assoc]
  rw [List.take_left' hk.version_length, List.drop_left' hk.version_length,
    List.take_left' (length_toBytesBE 1 _), List.drop_left' (length_toBytesBE 1 _),
    List.take_left' hk.fingerprint_length, List.drop_left' hk.fingerprint_length,
    List.take_left' (length_toBytesBE 4 _), List.drop_left' (length_toBytesBE 4 _),
    List.take_left' hk.chainCode_length, List.drop_left' hk.chainCode_length,
    List.take_of_length_le (by rw [hk.key_length])]
  simp only [fromBytesBE_toBytesBE, hd', hi', hd, hi]

theorem length_layout {k : BIP32KeyData} (hk : k.Valid E) : (layout k).length = 78 := by
  simp [layout, hk.version_length, hk.fingerprint_length, hk.chainCode_length, hk.key_length]

/-- A valid key survives the binary round trip, through 78 bytes. -/
theorem deserialize_serialize {k : BIP32KeyData} (hk : k.Valid E) :
    ∃ b, k.serialize E true = .ok b ∧ b.length = 78 ∧ deserialize E b true = .ok k :=
  ⟨layout k, serialize_of_valid E hk, length_layout E hk,
    (deserialize_true_eq_ok_iff E _ _).2 ⟨readFields_layout E hk, hk⟩⟩

/-- A valid key survives the Base58Check round trip. -/
theorem b58decode_b58encode {k : BIP32KeyData} (hk : k.Valid E) :
    (k.b58encode E true >>= fun s => b58decode E s true) = .ok k := by
  obtain ⟨b, hs, hl, hd⟩ := deserialize_serialize E hk
  simp [b58encode, hs, b58decode, E.base58.strip_b58encode, E.base58.b58decode_b58encode, hl,
    expectedDecodedLenght, hd]

/-- What `deserialize` accepts had at least 78 bytes and re-serializes to them. -/
theorem serialize_deserialize {b : Bytes} {k : BIP32KeyData} (h : deserialize E b true = .ok k) :
    78 ≤ b.length ∧ k.serialize E true = .ok (b.take 78) := by
  obtain ⟨rfl, hk⟩ := (deserialize_true_eq_ok_iff E b k).1 h
  have hkey := hk.key_length
  simp only [readFields, List.length_take, List.length_drop] at hkey
  have h1 : toBytesBE 1 (fromBytesBE ((b.drop 4).take 1)) = (b.drop 4).take 1 :=
    toBytesBE_eq_of_fromBytesBE (by simp; omega) rfl
  have h4 : toBytesBE 4 (fromBytesBE ((((b.drop 4).drop 1).drop 4).take 4)) =
      (((b.drop 4).drop 1).drop 4).take 4 :=
    toBytesBE_eq_of_fromBytesBE (by simp; omega) rfl
  refine ⟨by omega, ?_⟩
  rw [serialize_of_valid E hk, layout]
  simp only [readFields, Int.toNat_ofNat, h1, h4, List.append_assoc]
  rw [show (78 : Nat) = 4 + (1 + (4 + (4 + (32 + 33)))) from rfl, List.take_add, List.take_add,
    List.take_add, List.take_add, List.take_add]

end BIP32KeyData

open BIP32KeyData

/-- The 78-byte codec is a bijection between valid keys and the inputs that
`deserialize` accepts. -/
theorem codec_bijective :
    (∀ k : BIP32KeyData, k.assertValid E = .ok () →
      (∃ b, k.serialize E true = .ok b ∧ b.length = 78 ∧ deserialize E b true = .ok k) ∧
        (k.b58encode E true >>= fun s => b58decode E s true) = .ok k) ∧
    (∀ (b : Bytes) (k : BIP32KeyData), deserialize E b true = .ok k →
      78 ≤ b.length ∧ k.serialize E true = .ok (b.take 78)) := by
  refine ⟨fun k hk => ?_, fun b k h => serialize_deserialize E h⟩
  have hv := (assertValid_eq_ok_iff E k).1 hk
  exact ⟨deserialize_serialize E hv, b58decode_b58encode E hv⟩

/-- A depth-0 private key of `modSevenEnv`, with scalar `1`. -/
def masterKey : BIP32KeyData :=
  { version := slip132Networks.mainnet.bip32Prv, depth := 0, parentFingerprint := [0, 0, 0, 0],
    index := 0, chainCode := List.replicate 32 7, key := 0 :: toBytesBE 32 1 }

theorem codec_bijective_at_masterKey :
    masterKey.assertValid modSevenEnv = .ok () ∧
      (masterKey.b58encode modSevenEnv true >>= fun s => b58decode modSevenEnv s true) =
        .ok masterKey :=
  ⟨by decide, ((codec_bijective modSevenEnv).1 masterKey (by decide)).2⟩

end Bip32
end Btclib
