import Btclib.Python
import Mathlib.Data.ZMod.Basic
import Mathlib.Tactic.IntervalCases

/-!
# External collaborators: the curve, the hashes and Base58Check

`bip32.py`, `wifaddress.py` and `blocks.py` consume elliptic-curve
arithmetic, hash functions and Base58Check as services of other btclib
modules (`curve`, `sec_point`, `utils`, `base58`), none of which is part of
the sources. Each service is a structure: its operations, and as further
fields the laws the callers rely on.

**secp256k1.** Points form an additive group `P`; `INF` is `0`, `ec.add` is
`+` and `mult q` is `q • G`, so `mult` is a homomorphism from `ℤ/n` as soon
as `G` has order `n` (`nsmul_G_eq_zero_iff`). `bytes_from_point` raises on
`INF` and otherwise returns a compressed SEC encoding that `point_from_octets`
decodes back to the point; every such encoding that `assert_valid` accepts
decodes to a point that encodes to it.

**Hashes.** `hash160` returns 20 bytes, `hash256` 32 bytes and HMAC-SHA512
64 bytes.

**Base58Check.** Decoding undoes encoding, also when the expected payload
size is given, and encoded text has no whitespace for `strip` to remove.

Each structure has a small lawful instance (`modSevenCurve`,
`paddingHashes`, `letterBase58`), so that no law set is contradictory and
the theorems can be applied to concrete inputs.
-/

namespace Btclib

/-- A compressed SEC public key as `assert_valid` accepts it: 33 bytes, prefix
`0x02` or `0x03`, and an x-coordinate for which `ec.y` succeeds. -/
def SecPubkey (y : Nat → Except PyExc Nat) (b : Bytes) : Prop :=
  b.length = 33 ∧ (b.head? = some 2 ∨ b.head? = some 3) ∧ (y (fromBytesBE b.tail)).toBool = true

instance (y : Nat → Except PyExc Nat) (b : Bytes) : Decidable (SecPubkey y b) :=
  inferInstanceAs (Decidable (_ ∧ _))

/-- The secp256k1 service in the group model. -/
structure Secp (P : Type) [AddCommGroup P] where
  /-- The group order `ec.n`. -/
  n : Nat
  /-- The generator `ec.G`. -/
  G : P
  /-- `ec.y(x)`: raises `BTClibValueError` when `x` is not the x-coordinate of a point. -/
  y : Nat → Except PyExc Nat
  /-- `bytes_from_point(Q)`: the compressed SEC encoding. -/
  bytesFromPoint : P → Except PyExc Bytes
  /-- `point_from_octets(b)`. -/
  pointFromOctets : Bytes → Except PyExc P
  n_pos : 0 < n
  n_le : n ≤ 2 ^ 256
  nsmul_G_eq_zero_iff : ∀ q : Nat, q • G = 0 ↔ q % n = 0
  raises_bytesFromPoint_zero : Raises (bytesFromPoint 0)
  bytesFromPoint_ok : ∀ Q : P, Q ≠ 0 →
    ∃ b, bytesFromPoint Q = .ok b ∧ SecPubkey y b ∧ pointFromOctets b = .ok Q
  pointFromOctets_ok : ∀ b : Bytes, SecPubkey y b →
    ∃ Q, pointFromOctets b = .ok Q ∧ bytesFromPoint Q = .ok b

namespace Secp

variable {P : Type} [AddCommGroup P] (ec : Secp P)

/-- `mult(q)`: scalar multiplication of the generator. -/
def mult (q : Nat) : P :=
  q • ec.G

@[simp] theorem mult_zero : ec.mult 0 = 0 :=
  zero_nsmul ec.G

theorem mult_add (a b : Nat) : ec.mult (a + b) = ec.mult a + ec.mult b :=
  add_nsmul ec.G a b

theorem mult_mod (q : Nat) : ec.mult (q % ec.n) = ec.mult q := by
  have h : ec.n • ec.G = 0 := (ec.nsmul_G_eq_zero_iff ec.n).2 (Nat.mod_self _)
  conv_rhs => rw [← Nat.mod_add_div q ec.n]
  simp [mult, add_nsmul, mul_nsmul, h]

theorem mult_eq_zero_iff (q : Nat) : ec.mult q = 0 ↔ q % ec.n = 0 :=
  ec.nsmul_G_eq_zero_iff q

/-- A scalar below `n` fits in the 32 bytes of a private key. -/
theorem lt_of_lt_n {q : Nat} (h : q < ec.n) : q < 256 ^ 32 :=
  lt_of_lt_of_le h (by simpa using ec.n_le)

/-- A scalar below `n` reads back from its 32 bytes. -/
theorem fromBytesBE_toBytesBE_scalar {q : Nat} (h : q < ec.n) :
    fromBytesBE (toBytesBE 32 q) = q :=
  fromBytesBE_toBytesBE_of_lt (ec.lt_of_lt_n h)

/-- The point whose encoding `bytes_from_point` returns is not `INF`. -/
theorem ne_zero_of_bytesFromPoint {Q : P} {b : Bytes} (h : ec.bytesFromPoint Q = .ok b) :
    Q ≠ 0 := by
  rintro rfl
  obtain ⟨e, he⟩ := ec.raises_bytesFromPoint_zero
  rw [he] at h
  cases h

theorem bytesFromPoint_spec {Q : P} {b : Bytes} (h : ec.bytesFromPoint Q = .ok b) :
    SecPubkey ec.y b ∧ ec.pointFromOctets b = .ok Q := by
  obtain ⟨b', hb', hsec, hdec⟩ := ec.bytesFromPoint_ok Q (ec.ne_zero_of_bytesFromPoint h)
  rw [h] at hb'
  cases hb'
  exact ⟨hsec, hdec⟩

theorem raises_bytesFromPoint_iff (Q : P) : Raises (ec.bytesFromPoint Q) ↔ Q = 0 := by
  constructor
  · intro ⟨e, he⟩
    by_contra hQ
    obtain ⟨b, hb, -⟩ := ec.bytesFromPoint_ok Q hQ
    rw [he] at hb
    cases hb
  · rintro rfl
    exact ec.raises_bytesFromPoint_zero

end Secp

/-- The hash services of `btclib.utils` and `hmac`. -/
structure Hashes where
  /-- `hash160(b)`: RIPEMD160 of SHA256. -/
  hash160 : Bytes → Bytes
  /-- `hash256(b)`: SHA256 of SHA256. -/
  hash256 : Bytes → Bytes
  /-- `hmac.new(key, data, "sha512").digest()`. -/
  hmacSha512 : Bytes → Bytes → Bytes
  length_hash160 : ∀ b, (hash160 b).length = 20
  length_hash256 : ∀ b, (hash256 b).length = 32
  length_hmacSha512 : ∀ key data, (hmacSha512 key data).length = 64

/-- The Base58Check service (`base58.b58encode` / `base58.b58decode(v, out_size)`). -/
structure Base58 where
  b58encode : Bytes → Bytes
  b58decode : Bytes → Option Nat → Except PyExc Bytes
  b58decode_b58encode : ∀ b, b58decode (b58encode b) none = .ok b
  b58decode_b58encode_size : ∀ b, b58decode (b58encode b) (some b.length) = .ok b
  isSpace_b58encode : ∀ b, ∀ c ∈ b58encode b, isSpace c = false

/-- Encoded text survives `strip`. -/
theorem Base58.strip_b58encode (b58 : Base58) (b : Bytes) :
    strip (b58.b58encode b) = b58.b58encode b :=
  strip_eq_self (b58.isSpace_b58encode b)

/-! ## Lawful instances -/

section Instances

/-- The additive group of `ZMod 7` that the toy curve is built on, fixed here so
that every module elaborates the curve with the same instance. -/
instance (priority := 2000) modSevenAddCommGroup : AddCommGroup (ZMod 7) :=
  Ring.toAddCommGroup

/-- Encoding of a point of `ZMod 7`: the class of `±x` with `x ≤ 3`, and its sign. -/
def modSevenEncode (Q : ZMod 7) : Bytes :=
  if Q.val ≤ 3 then 2 :: toBytesBE 32 Q.val else 3 :: toBytesBE 32 (7 - Q.val)

/-- Decoding of a compressed key into `ZMod 7`. -/
def modSevenDecode (b : Bytes) : Except PyExc (ZMod 7) :=
  let x := fromBytesBE b.tail
  if b.length = 33 ∧ 1 ≤ x ∧ x ≤ 3 then
    if b.headD 0 = 2 then .ok (x : ZMod 7)
    else if b.headD 0 = 3 then .ok (-(x : ZMod 7))
    else .error (.btclibValueError "not a point")
  else .error (.btclibValueError "not a point")

/-- The x-coordinates of `ZMod 7` are `1, 2, 3`. -/
def modSevenY (x : Nat) : Except PyExc Nat :=
  if 1 ≤ x ∧ x ≤ 3 then .ok x else .error (.btclibValueError "x not on curve")

theorem modSevenDecode_encode : ∀ Q : ZMod 7, Q ≠ 0 →
    SecPubkey modSevenY (modSevenEncode Q) ∧ modSevenDecode (modSevenEncode Q) = .ok Q := by
  decide

theorem modSevenEncode_decode (b : Bytes) (h : SecPubkey modSevenY b) :
    ∃ Q, modSevenDecode b = .ok Q ∧ (Q ≠ 0 ∧ modSevenEncode Q = b) := by
  obtain ⟨hl, hp, hy⟩ := h
  have hx : 1 ≤ fromBytesBE b.tail ∧ fromBytesBE b.tail ≤ 3 := by
    by_contra hx
    simp [modSevenY, hx, Except.toBool] at hy
  have htail : toBytesBE 32 (fromBytesBE b.tail) = b.tail :=
    toBytesBE_eq_of_fromBytesBE (by simp [hl]) rfl
  obtain ⟨c, t, rfl⟩ : ∃ c t, b = c :: t := ⟨b.headD 0, b.tail, by cases b <;> simp_all⟩
  simp only [List.tail_cons] at hx htail
  simp only [List.head?_cons, Option.some.injEq] at hp
  generalize fromBytesBE t = x at hx htail
  obtain ⟨h1, h3⟩ := hx
  subst htail
  rcases hp with rfl | rfl
  · exact ⟨(x : ZMod 7), by interval_cases x <;> decide⟩
  · exact ⟨-(x : ZMod 7), by interval_cases x <;> decide⟩

/-- `ZMod 7` with generator `1`: a lawful curve service. -/
def modSevenCurve : Secp (ZMod 7) where
  n := 7
  G := 1
  y := modSevenY
  bytesFromPoint Q := if Q = 0 then .error (.btclibValueError "infinity") else .ok (modSevenEncode Q)
  pointFromOctets := modSevenDecode
  n_pos := by decide
  n_le := by norm_num
  nsmul_G_eq_zero_iff q := by
    rw [nsmul_eq_mul, mul_one, ZMod.natCast_zmod_eq_zero_iff_dvd, Nat.dvd_iff_mod_eq_zero]
  raises_bytesFromPoint_zero := by simp
  bytesFromPoint_ok Q hQ := ⟨_, by simp [hQ], (modSevenDecode_encode Q hQ)⟩
  pointFromOctets_ok b hb := by
    obtain ⟨Q, hd, hQ, he⟩ := modSevenEncode_decode b hb
    exact ⟨Q, hd, by simp [hQ, he]⟩

/-- Hashes that pad or cut their input to the digest size. -/
def paddingHashes : Hashes where
  hash160 b := (b ++ List.replicate 20 0).take 20
  hash256 b := (b ++ List.replicate 32 0).take 32
  hmacSha512 key data := (key ++ data ++ List.replicate 64 0).take 64
  length_hash160 b := by simp
  length_hash256 b := by simp
  length_hmacSha512 key data := by simp; omega

/-- Each byte as two capital letters `A`..`P`. -/
def letterEncode : Bytes → Bytes
  | [] => []
  | x :: b => byteOf (65 + x.val / 16) :: byteOf (65 + x.val % 16) :: letterEncode b

/-- Inverse of `letterEncode` on its image. -/
def letterDecode : Bytes → Bytes
  | hi :: lo :: b => byteOf ((hi.val - 65) * 16 + (lo.val - 65)) :: letterDecode b
  | _ => []

theorem letterDecode_letterEncode (b : Bytes) : letterDecode (letterEncode b) = b := by
  induction b with
  | nil => rfl
  | cons x b ih =>
      have hx := x.isLt
      simp only [letterEncode, letterDecode, ih, List.cons.injEq, and_true]
      exact Fin.ext (by simp [byteOf]; omega)

/-- A lawful Base58Check stand-in: letters for nibbles. -/
def letterBase58 : Base58 where
  b58encode := letterEncode
  b58decode v size :=
    match size with
    | none => .ok (letterDecode v)
    | some k =>
        if (letterDecode v).length = k then .ok (letterDecode v)
        else .error (.btclibValueError "invalid decoded size")
  b58decode_b58encode b := by simp [letterDecode_letterEncode]
  b58decode_b58encode_size b := by simp [letterDecode_letterEncode]
  isSpace_b58encode b := by
    induction b with
    | nil => simp [letterEncode]
    | cons x b ih =>
        have hx := x.isLt
        simp only [letterEncode, List.mem_cons]
        rintro c (rfl | rfl | hc)
        · simp [isSpace, byteOf]; omega
        · simp [isSpace, byteOf]; omega
        · exact ih c hc

end Instances

end Btclib
