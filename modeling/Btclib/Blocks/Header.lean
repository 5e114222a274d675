import Btclib.Collaborators
import Btclib.Blocks.Datetime

/-!
# Block headers

`BlockHeader` holds the six fields of a Bitcoin block header. `serialize`
writes them in 80 bytes: the version as a signed little-endian int, the
previous block hash and the merkle root reversed, `int(time.timestamp())` and
the nonce as unsigned little-endian ints, and `bits` reversed. `deserialize`
reads them back with six `read`s of a `BytesIO` stream, which return fewer
bytes at the end of the data.

`assert_valid` checks the ranges and lengths of the fields, then the proof of
work: the `hash` (`hash256` of the unvalidated serialization, reversed) must be
below the `target`, `int(bits[1:]) · 256^(bits[0] - 3)` in 32 bytes. The
target of an exponent `bits[0] < 3` is a float (`pow` of a negative power),
and a float has no `to_bytes`.

**Results.**
* `assertValid_eq_ok_iff`: `assert_valid` passes exactly on `Valid` headers.
* `deserialize_eq_ok`: what `deserialize` accepts has at least 77 bytes, and
  the header re-serializes to its first 80 bytes padded with zeros.
* `deserialize_serialize_of_aware`: a valid header whose time is aware and has no
  microseconds survives `serialize` then `deserialize`.
* `deserialize_small_exponent`: the parser raises `AttributeError` on every input
  whose fields pass their checks but whose `bits` exponent is below 3, whatever
  the hash function.
-/

namespace Btclib
namespace Blocks

/-- `BlockHeader`, with its defaults. -/
structure BlockHeader where
  version : Int := 0
  previousBlockHash : Bytes := []
  merkleRoot : Bytes := []
  time : Datetime := Datetime.epochLocal
  bits : Bytes := []
  nonce : Int := 0
deriving DecidableEq, Repr

/-- The timestamp of the genesis block. -/
def genesisTime : Int := 1231006505

namespace BlockHeader

variable (H : Hashes)

/-- The `bip9` property: the top three bits of the 32-bit version are `001`. -/
def bip9 (h : BlockHeader) : Bool :=
  h.version / 2 ^ 29 == 1

/-- The `bip141` property: `bip9`, and the second bit from the right is set. -/
def bip141 (h : BlockHeader) : Bool :=
  h.bip9 && h.version / 2 % 2 == 1

/-- The `bip91` property: `bip141`, and the fifth bit from the right is set. -/
def bip91 (h : BlockHeader) : Bool :=
  h.bip141 && h.version / 2 ^ 4 % 2 == 1

/-- `version >> 29 == 0b001` is the range of versions from `0x20000000` to
`0x3FFFFFFF`. -/
theorem bip9_iff (h : BlockHeader) : h.bip9 = true ↔ 0x20000000 ≤ h.version ∧ h.version < 0x40000000 := by
  simp only [bip9, beq_iff_eq]
  omega

/-- The body of `serialize`, after its optional validation. -/
def serializeFields (h : BlockHeader) : Except PyExc Bytes := do
  let version ← intToBytesSigned h.version 4 .little
  let time ← intToBytes h.time.intTimestamp 4 .little
  let nonce ← intToBytes h.nonce 4 .little
  pure (version ++ h.previousBlockHash.reverse ++ h.merkleRoot.reverse ++ time ++
    h.bits.reverse ++ nonce)

/-- The `hash` property: `hash256` of the unvalidated serialization, reversed. -/
def hash (h : BlockHeader) : Except PyExc Bytes := do
  let s ← h.serializeFields
  pure (H.hash256 s).reverse

/-- What `to_bytes` of the float `pow(256, e)` of a negative `e` raises. -/
def floatToBytesError : PyExc :=
  .attributeError "\x27float\x27 object has no attribute \x27to_bytes\x27"

/-- The `target` property. -/
def target (h : BlockHeader) : Except PyExc Bytes := do
  let significand := fromBytesBE (h.bits.drop 1)
  let exponent ← getItem h.bits 0
  if exponent.val < 3 then
    throw floatToBytesError
  natToBytes (significand * 256 ^ (exponent.val - 3)) 32 .big

/-- `assert_valid_pow`. -/
def assertValidPow (h : BlockHeader) : Except PyExc Unit := do
  let hash ← h.hash H
  let target ← h.target
  if ¬ bytesLt hash target then
    throw (.btclibValueError ("invalid proof-of-work: " ++ hexBytes hash ++ " >= " ++
      hexBytes target))

/-- `assert_valid`. -/
def assertValid (h : BlockHeader) : Except PyExc Unit := do
  if ¬ (0 < h.version ∧ h.version ≤ 0x7FFFFFFF) then
    throw (.btclibValueError ("invalid version: " ++ hexInt h.version))
  if h.previousBlockHash.length ≠ 32 then
    throw (.btclibValueError ("invalid previous block hash: " ++ hexBytes h.previousBlockHash))
  if h.merkleRoot.length ≠ 32 then
    throw (.btclibValueError ("invalid merkle root: " ++ hexString h.merkleRoot))
  if h.time.timestampLt genesisTime then
    let date ← fromtimestampUtc h.time.seconds h.time.microsecond
    throw (.btclibValueError ("invalid timestamp (before genesis): " ++ date.strUtc))
  if h.bits.length ≠ 4 then
    throw (.btclibValueError ("invalid bits: " ++ hexBytes h.bits))
  if ¬ (0 < h.nonce ∧ h.nonce ≤ 0xFFFFFFFF) then
    throw (.btclibValueError ("invalid nonce: " ++ hexInt h.nonce))
  h.assertValidPow H

/-- `serialize`. -/
def serialize (h : BlockHeader) (assertValid : Bool) : Except PyExc Bytes := do
  if assertValid then h.assertValid H
  h.serializeFields

/-! ## What `assert_valid` accepts -/

/-- The 80 bytes `serialize` writes for a header whose fields are in range. -/
def layout (h : BlockHeader) : Bytes :=
  toBytesLE 4 h.version.toNat ++ h.previousBlockHash.reverse ++ h.merkleRoot.reverse ++
    toBytesLE 4 h.time.intTimestamp.toNat ++ h.bits.reverse ++ toBytesLE 4 h.nonce.toNat

/-- `bits[0]`, the exponent of the target. -/
def exponent (h : BlockHeader) : Nat :=
  match h.bits with
  | [] => 0
  | e :: _ => e.val

/-- The value of the target: `int(bits[1:]) · 256^(bits[0] - 3)`. -/
def targetValue (h : BlockHeader) : Nat :=
  fromBytesBE (h.bits.drop 1) * 256 ^ (h.exponent - 3)

/-- The hash the proof of work is checked on. -/
def powHash (h : BlockHeader) : Bytes :=
  (H.hash256 h.layout).reverse

/-- The checks `assert_valid` makes before the proof of work. -/
structure FieldsOk (h : BlockHeader) : Prop where
  version_pos : 0 < h.version
  version_le : h.version ≤ 0x7FFFFFFF
  previousBlockHash_length : h.previousBlockHash.length = 32
  merkleRoot_length : h.merkleRoot.length = 32
  time_ge : genesisTime ≤ h.time.seconds
  bits_length : h.bits.length = 4
  nonce_pos : 0 < h.nonce
  nonce_le : h.nonce ≤ 0xFFFFFFFF

/-- A header `assert_valid` accepts: its fields are in range, its time fits in
the four bytes of the serialization, and its hash is below a 32-byte target. -/
structure Valid (h : BlockHeader) extends FieldsOk h : Prop where
  time_lt : h.time.intTimestamp < 2 ^ 32
  exponent_ge : 3 ≤ h.exponent
  targetValue_lt : h.targetValue < 2 ^ 256
  pow : bytesLt (h.powHash H) (toBytesBE 32 h.targetValue) = true

variable {H} {h : BlockHeader}

theorem FieldsOk.intTimestamp_eq (hf : FieldsOk h) : h.time.intTimestamp = h.time.seconds := by
  have := hf.time_ge
  simp only [Datetime.intTimestamp, genesisTime] at *
  rw [if_neg (by omega)]

theorem FieldsOk.bits_ne_nil (hf : FieldsOk h) : h.bits ≠ [] := by
  intro hb
  simpa [hb] using hf.bits_length

/-- With its fields in range, the header serializes to its `layout`, unless its
time is past the four bytes. -/
theorem serializeFields_eq (hf : FieldsOk h) :
    h.serializeFields = if h.time.intTimestamp < 2 ^ 32 then .ok h.layout
      else .error (.overflowError "int too big to convert") := by
  have ht : 0 ≤ h.time.intTimestamp := by
    have := hf.time_ge
    rw [hf.intTimestamp_eq]
    unfold genesisTime at this
    omega
  obtain ⟨v, hv⟩ := Int.eq_ofNat_of_zero_le hf.version_pos.le
  have hversion : intToBytesSigned h.version 4 .little = .ok (toBytesLE 4 h.version.toNat) := by
    have := hf.version_le
    rw [hv, Int.toNat_natCast]
    exact intToBytesSigned_little_of_nonneg (by omega)
  have hnonce : h.nonce.toNat < 256 ^ 4 := by
    have := hf.nonce_le
    omega
  simp only [serializeFields, hversion, intToBytes_little_of_nonneg ht,
    intToBytes_little_of_nonneg hf.nonce_pos.le, if_pos hnonce, layout]
  split_ifs with h1 h2 h2 <;> first | rfl | omega

theorem target_eq (hb : h.bits ≠ []) :
    h.target = if h.exponent < 3 then .error floatToBytesError
      else natToBytes h.targetValue 32 .big := by
  obtain ⟨e, rest, he⟩ := List.exists_cons_of_ne_nil hb
  simp [target, exponent, targetValue, he]

theorem assertValidPow_eq_ok_iff (hf : FieldsOk h) :
    h.assertValidPow H = .ok () ↔ h.time.intTimestamp < 2 ^ 32 ∧ 3 ≤ h.exponent ∧
      h.targetValue < 2 ^ 256 ∧ bytesLt (h.powHash H) (toBytesBE 32 h.targetValue) = true := by
  simp only [assertValidPow, hash, serializeFields_eq hf, target_eq hf.bits_ne_nil,
    natToBytes_big_eq, powHash]
  split_ifs <;> simp_all

theorem assertValid_of_fieldsOk (hf : FieldsOk h) : h.assertValid H = h.assertValidPow H := by
  have := hf.time_ge
  simp [assertValid, Datetime.timestampLt, hf.version_pos, hf.version_le,
    hf.previousBlockHash_length, hf.merkleRoot_length, hf.bits_length, hf.nonce_pos,
    hf.nonce_le, not_lt.2 this]

theorem fieldsOk_of_assertValid (hv : h.assertValid H = .ok ()) : FieldsOk h := by
  simp only [assertValid, Datetime.timestampLt, ite_eq_iff, reduceCtorEq, false_and, false_or,
    and_false, pure_bind, bind_eq_ok, exists_false, not_not, decide_eq_true_eq, throw_eq_error] at hv
  obtain ⟨⟨h1, h2⟩, h3, h4, h5, h6, ⟨h7, h8⟩, -⟩ := hv
  exact ⟨h1, h2, h3, h4, not_lt.1 h5, h6, h7, h8⟩

/-- `assert_valid` passes exactly on valid headers. -/
theorem assertValid_eq_ok_iff : h.assertValid H = .ok () ↔ h.Valid H := by
  constructor
  · intro hv
    have hf := fieldsOk_of_assertValid hv
    rw [assertValid_of_fieldsOk hf, assertValidPow_eq_ok_iff hf] at hv
    exact ⟨hf, hv.1, hv.2.1, hv.2.2.1, hv.2.2.2⟩
  · intro hv
    rw [assertValid_of_fieldsOk hv.toFieldsOk, assertValidPow_eq_ok_iff hv.toFieldsOk]
    exact ⟨hv.time_lt, hv.exponent_ge, hv.targetValue_lt, hv.pow⟩

/-- A valid header serializes to its layout. -/
theorem serialize_of_valid (hv : h.Valid H) : h.serialize H true = .ok h.layout := by
  rw [serialize, if_pos rfl, assertValid_eq_ok_iff.2 hv, ok_bind, serializeFields_eq hv.toFieldsOk,
    if_pos hv.time_lt]

/-! ## The exceptions of `assert_valid` that are not `BTClibValueError` -/

/-- A target exponent below 3 makes `target` compute a float, so the
proof-of-work check raises `AttributeError`. -/
theorem assertValidPow_of_small_exponent (hf : FieldsOk h) (ht : h.time.intTimestamp < 2 ^ 32)
    (he : h.exponent < 3) : h.assertValidPow H = .error floatToBytesError := by
  simp only [assertValidPow, hash, serializeFields_eq hf, if_pos ht, target_eq hf.bits_ne_nil,
    if_pos he]
  rfl

/-- A time at or past `2^32` cannot be written in four bytes: computing the hash
raises `OverflowError`. -/
theorem assertValid_of_late_time (hf : FieldsOk h) (ht : 2 ^ 32 ≤ h.time.intTimestamp) :
    h.assertValid H = .error (.overflowError "int too big to convert") := by
  rw [assertValid_of_fieldsOk hf]
  simp only [assertValidPow, hash, serializeFields_eq hf, if_neg (not_lt.2 ht)]
  rfl

/-- A target that does not fit in 32 bytes raises `OverflowError`. -/
theorem assertValid_of_large_target (hf : FieldsOk h) (ht : h.time.intTimestamp < 2 ^ 32)
    (he : 3 ≤ h.exponent) (hbig : 2 ^ 256 ≤ h.targetValue) :
    h.assertValid H = .error (.overflowError "int too big to convert") := by
  have hbig' : ¬ h.targetValue < 256 ^ 32 := by
    rw [show (256 : Nat) ^ 32 = 2 ^ 256 by norm_num]
    omega
  rw [assertValid_of_fieldsOk hf]
  simp only [assertValidPow, hash, serializeFields_eq hf, if_pos ht, target_eq hf.bits_ne_nil,
    if_neg (not_lt.2 he), natToBytes_big_eq, if_neg hbig']
  rfl

/-- A time before the year 1 makes the message of the genesis check raise
`ValueError` while it formats the date. -/
theorem assertValid_of_early_time (hv : 0 < h.version ∧ h.version ≤ 0x7FFFFFFF)
    (hp : h.previousBlockHash.length = 32) (hm : h.merkleRoot.length = 32)
    (ht : h.time.seconds < minSeconds) :
    h.assertValid H = .error (.valueError ("year " ++
      toString (civilFromDays (h.time.seconds / 86400)).1 ++ " is out of range")) := by
  have hg : h.time.seconds < genesisTime := by
    unfold minSeconds at ht
    unfold genesisTime
    omega
  simp [assertValid, Datetime.timestampLt, hv, hp, hm, hg, fromtimestampUtc, ht]

end BlockHeader

open BlockHeader

/-- `BlockHeader.deserialize`: six reads from a `BytesIO` stream, then validation. -/
def deserialize (H : Hashes) (data : Bytes) (assertValid : Bool) : Except PyExc BlockHeader := do
  let (version, stream) := read 4 data
  let (previousBlockHash, stream) := read 32 stream
  let (merkleRoot, stream) := read 32 stream
  let (t, stream) := read 4 stream
  let time ← fromtimestampUtc (fromBytesLE t) 0
  let (bits, stream) := read 4 stream
  let (nonce, _) := read 4 stream
  let header : BlockHeader :=
    { version := fromBytesLESigned version, previousBlockHash := previousBlockHash.reverse
      merkleRoot := merkleRoot.reverse, time := time, bits := bits.reverse
      nonce := fromBytesLE nonce }
  if assertValid then header.assertValid H
  pure header

/-! ## What `deserialize` reads -/

/-- The header the six reads of `deserialize` build from `data`. -/
def readHeader (data : Bytes) : BlockHeader where
  version := fromBytesLESigned (data.take 4)
  previousBlockHash := ((data.drop 4).take 32).reverse
  merkleRoot := ((data.drop 36).take 32).reverse
  time := ⟨fromBytesLE ((data.drop 68).take 4), 0, true⟩
  bits := ((data.drop 72).take 4).reverse
  nonce := fromBytesLE ((data.drop 76).take 4)

variable (H : Hashes)

theorem deserialize_eq (data : Bytes) (assertValid : Bool) :
    deserialize H data assertValid =
      (if assertValid then (readHeader data).assertValid H else pure ()) >>= fun _ =>
        pure (readHeader data) := by
  have ht := fromBytesLE_take_lt (data.drop 68) 4
  simp only [deserialize, read, List.drop_drop, Nat.reduceAdd]
  rw [fromtimestampUtc_of_mem (by unfold minSeconds; omega) (by unfold maxSeconds; omega)]
  cases assertValid <;> rfl

theorem readHeader_time_lt (data : Bytes) : (readHeader data).time.intTimestamp < 2 ^ 32 := by
  have := fromBytesLE_take_lt (data.drop 68) 4
  simp only [readHeader, Datetime.intTimestamp]
  omega

/-- Reading back a serialization in range gives the header, its time rebuilt as
the aware value of the whole seconds `serialize` wrote. -/
theorem readHeader_layout {h : BlockHeader} (hf : FieldsOk h) (ht : h.time.intTimestamp < 2 ^ 32) :
    readHeader h.layout = { h with time := ⟨h.time.intTimestamp, 0, true⟩ } := by
  have := hf.version_pos
  have := hf.version_le
  have := hf.nonce_pos
  have := hf.nonce_le
  have hversion : fromBytesLESigned (toBytesLE 4 h.version.toNat) = h.version := by
    rw [fromBytesLESigned_of_lt (by simp [fromBytesLE_toBytesLE]; omega), fromBytesLE_toBytesLE]
    omega
  have hts : ((fromBytesLE (toBytesLE 4 h.time.intTimestamp.toNat) : Nat) : Int) =
      h.time.intTimestamp := by
    rw [fromBytesLE_toBytesLE, hf.intTimestamp_eq] at *
    have := hf.time_ge
    unfold genesisTime at this
    omega
  have hnonce : ((fromBytesLE (toBytesLE 4 h.nonce.toNat) : Nat) : Int) = h.nonce := by
    rw [fromBytesLE_toBytesLE]
    omega
  simp [readHeader, layout, List.take_append_eq_append_take, List.drop_append_eq_append_drop,
    List.drop_eq_nil_of_le, List.take_of_length_le, hf.previousBlockHash_length,
    hf.merkleRoot_length, hf.bits_length, hversion, hts, hnonce]

/-- A header read from at least 77 bytes with a positive version writes back the
first 80 of them, the missing nonce bytes as zeros. -/
theorem layout_readHeader {b : Bytes} (hb : 77 ≤ b.length) (hv : 0 < (readHeader b).version) :
    (readHeader b).layout = (b ++ List.replicate 3 0).take 80 := by
  have h4 : (b.take 4).length = 4 := by simp; omega
  have h68 : ((b.drop 68).take 4).length = 4 := by simp; omega
  simp only [readHeader] at hv
  simp [layout, readHeader, fromBytesLESigned_of_pos hv, Datetime.intTimestamp,
    toBytesLE_fromBytesLE_of_length h4, toBytesLE_fromBytesLE_of_length h68,
    toBytesLE_fromBytesLE_of_le (List.length_take_le 4 (b.drop 76)), take_append_take_drop,
    List.take_append_eq_append_take]
  rw [show ([0, 0, 0] : Bytes) = List.replicate 3 0 from rfl, List.take_replicate]
  congr 1
  omega

/-- What `deserialize` accepts has at least 77 bytes, and the header it returns
re-serializes to the first 80 of them, the nonce bytes past the end as zeros. -/
theorem deserialize_eq_ok {b : Bytes} {h : BlockHeader} (hd : deserialize H b true = .ok h) :
    77 ≤ b.length ∧ h.serialize H true = .ok ((b ++ List.replicate 3 0).take 80) := by
  obtain ⟨hv, rfl⟩ : (readHeader b).assertValid H = .ok () ∧ readHeader b = h := by
    simpa [deserialize_eq] using hd
  have hvalid := assertValid_eq_ok_iff.1 hv
  have hlen : 77 ≤ b.length := by
    by_contra hb
    have hn := hvalid.nonce_pos
    have hdrop : b.drop 76 = [] := List.drop_eq_nil_of_le (by omega)
    simp [readHeader, hdrop, fromBytesLE] at hn
  exact ⟨hlen, by rw [serialize_of_valid hvalid, layout_readHeader hlen hvalid.version_pos]⟩

set_option maxRecDepth 2000 in
theorem deserialize_eq_ok_at_short_data :
    deserialize paddingHashes ([1, 0, 0, 0] ++ List.replicate 64 0 ++
        [0x29, 0xab, 0x5f, 0x49, 0xff, 0xff, 0x00, 0x1d, 2, 0, 0]) true =
      .ok (readHeader ([1, 0, 0, 0] ++ List.replicate 64 0 ++
        [0x29, 0xab, 0x5f, 0x49, 0xff, 0xff, 0x00, 0x1d, 2, 0, 0])) ∧
    77 ≤ ([1, 0, 0, 0] ++ List.replicate 64 0 ++
        [0x29, 0xab, 0x5f, 0x49, 0xff, 0xff, 0x00, 0x1d, 2, 0, 0] : Bytes).length ∧
    (readHeader ([1, 0, 0, 0] ++ List.replicate 64 0 ++
        [0x29, 0xab, 0x5f, 0x49, 0xff, 0xff, 0x00, 0x1d, 2, 0, 0])).serialize paddingHashes true =
      .ok (([1, 0, 0, 0] ++ List.replicate 64 0 ++
        [0x29, 0xab, 0x5f, 0x49, 0xff, 0xff, 0x00, 0x1d, 2, 0, 0] ++ List.replicate 3 0).take 80) :=
  have hd : deserialize paddingHashes ([1, 0, 0, 0] ++ List.replicate 64 0 ++
      [0x29, 0xab, 0x5f, 0x49, 0xff, 0xff, 0x00, 0x1d, 2, 0, 0]) true =
      .ok (readHeader ([1, 0, 0, 0] ++ List.replicate 64 0 ++
        [0x29, 0xab, 0x5f, 0x49, 0xff, 0xff, 0x00, 0x1d, 2, 0, 0])) := by decide
  ⟨hd, deserialize_eq_ok paddingHashes hd⟩

/-- On every input whose fields pass their checks and whose target exponent is
below 3, `deserialize` raises `AttributeError`, whatever the hash function. -/
theorem deserialize_small_exponent (b : Bytes) (hf : FieldsOk (readHeader b))
    (he : (readHeader b).exponent < 3) : deserialize H b true = .error floatToBytesError := by
  rw [deserialize_eq, if_pos rfl, assertValid_of_fieldsOk hf,
    assertValidPow_of_small_exponent hf (readHeader_time_lt b) he]
  rfl

theorem deserialize_small_exponent_at_bits_02ffffff :
    deserialize paddingHashes ([1, 0, 0, 0] ++ List.replicate 64 0 ++
      [0x29, 0xab, 0x5f, 0x49, 0xff, 0xff, 0xff, 0x02, 1, 0, 0, 0]) true =
      .error floatToBytesError :=
  deserialize_small_exponent paddingHashes _ (by constructor <;> decide) (by decide)

end Blocks
end Btclib
