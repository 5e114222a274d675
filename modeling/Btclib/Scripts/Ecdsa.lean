import Btclib.Scripts.EcGroup

/-!
# ECDSA: `ecdsa.py`

`ecdsa_sign_raw(h, prv, k)` returns `r = x(k·G) mod n` and
`s = k⁻¹ (h + prv · r) mod n`; `ecdsa_sign` checks the message, decodes the
keys (drawing the nonce from RFC 6979 when none is given) and asserts that
neither `r` nor `s` is `0`. `ecdsa_verify_raw(h, (r, s), pub)` recomputes
`R = (r s⁻¹) · pub + (h s⁻¹) · G` and compares `x(R) mod n` with `r`;
`ecdsa_recover_raw` rebuilds `R` from `r` and a parity bit and returns
`r⁻¹ (s · R - h · G)`.

In the group model every scalar acts through its residue modulo `n`
(`EcGroup.zsmul_congr`), so each of these points is a multiple of `G` whose
coefficient is computed in the field `ZMod n`.

**Results.**
* `ecdsaSign_eq_ok`: what a signature that `ecdsa_sign` returns is made of.
* `ecdsaVerifyRaw_point`: the verifier's `R` is the signer's `k · G`.
* `ecdsaVerify_ecdsaSign`: `ecdsa_verify` accepts every signature that
  `ecdsa_sign` returns, under the signer's public key;
  `ecdsaVerify_ecdsaSign_rfc6979`: also with the default nonce of `rfc6979`.
* `ecdsaRecover_ecdsaSign`: `ecdsa_recover` returns the signer's public key.
* `ecdsaRecoverRaw_of_ecdsaVerifyRaw`: recovery with the parity of the
  verifier's point returns every key under which the verifier accepts.
* `ecdsaSignRaw_of_ecdsaVerifyRaw`: every signature the verifier accepts under
  `prv · G` is one that `ecdsa_sign_raw` returns for `prv` and the nonce
  `s⁻¹ (h + prv · r) mod n`.
* `ecdsaVerifyRaw_neg_s`: the verifier does not tell `s` from `n - s`.
* `ecdsaSignRaw_neg_nonce`: the nonce `n - k` signs `(r, n - s)`, the malleated
  signature of the nonce `k`.
* `ecdsaRecoverRaw_neg_s`: recovery does not tell `(s, b)` from `(n - s, 1 - b)`.
-/

namespace Btclib
namespace Scripts

variable {P : Type} [AddCommGroup P] (E : EcEnv P)

/-- `ecdsa_sign_raw`. -/
def ecdsaSignRaw (h prv ephPrv : Int) : Int × Int :=
  let R := ephPrv • E.ec.G
  let r := (E.ec.x R : Int) % E.ec.order
  let s := modInv ephPrv E.ec.order * (h + prv * r) % E.ec.order
  (r, s)

/-- `ecdsa_sign`, with the RFC 6979 nonce loop allowed `rounds` rounds. -/
def ecdsaSign (rounds : Nat) (m : Bytes) (prv : Int) (ephPrv : Option Int) (hasher : Hasher) :
    ExceptT PyExc Option (Int × Int) := do
  checkHashDigest m defaultHashDigestSize
  let prv ← E.decodePrv prv
  let ephPrv ← match ephPrv with
    | none => Int.ofNat <$> rfc6979 E.ec.order hasher rounds prv m
    | some ephPrv => E.decodePrv ephPrv
  let h := E.hashToInt m
  let (r, s) := ecdsaSignRaw E h prv ephPrv
  if ¬ (r ≠ 0 ∧ s ≠ 0) then throw (.assertionError "failed to sign")
  pure (r, s)

/-- `check_dsasig`: `r` and `s` in `[1, n)`. -/
def checkDsasig (dsasig : Int × Int) : Except PyExc Unit :=
  if 0 < dsasig.1 ∧ dsasig.1 < E.ec.order ∧ 0 < dsasig.2 ∧ dsasig.2 < E.ec.order then pure ()
  else throw (.assertionError "r and s must be in [1..order]")

/-- `ecdsa_verify_raw`. -/
def ecdsaVerifyRaw (h : Int) (dsasig : Int × Int) (pub : P) : Bool :=
  let (r, s) := dsasig
  let s1 := modInv s E.ec.order
  let R := (r * s1 % E.ec.order) • pub + (h * s1 % E.ec.order) • E.ec.G
  decide ((E.ec.x R : Int) % E.ec.order = r)

/-- `ecdsa_verify`. -/
def ecdsaVerify (m : Bytes) (dsasig : Int × Int) (pub : P) : Except PyExc Bool := do
  checkHashDigest m defaultHashDigestSize
  checkDsasig E dsasig
  let pub ← E.decodePub pub
  let h := E.hashToInt m
  pure (ecdsaVerifyRaw E h dsasig pub)

/-- `ecdsa_recover_raw`: `R` is the point `(r, ec_x_to_y(r, y_mod_2))`. -/
def ecdsaRecoverRaw (h : Int) (dsasig : Int × Int) (yMod2 : Int) : P :=
  let r := dsasig.1
  let r1 := modInv r E.ec.order
  let R := E.ec.point r.toNat (E.ec.xToY r.toNat yMod2.toNat)
  (dsasig.2 * r1 % E.ec.order) • R + (-h * r1 % E.ec.order) • E.ec.G

/-- `ecdsa_recover`. -/
def ecdsaRecover (m : Bytes) (dsasig : Int × Int) (yMod2 : Int) : Except PyExc P := do
  checkHashDigest m defaultHashDigestSize
  checkDsasig E dsasig
  if yMod2 ∉ [0, 1] then throw (.assertionError "")
  let h := E.hashToInt m
  pure (ecdsaRecoverRaw E h dsasig yMod2)

/-! ## The signer -/

/-- Without a nonce, `ecdsa_sign` returns what it returns with the nonce of
`rfc6979`, which is in `(0, n)`. -/
theorem ecdsaSign_none_eq_ok {rounds : Nat} {m : Bytes} {prv : Int} {hasher : Hasher}
    {rs : Int × Int} (hprv : 0 < prv ∧ prv < E.ec.order)
    (h : (ecdsaSign E rounds m prv none hasher).run = some (.ok rs)) :
    ∃ k : Int, (0 < k ∧ k < E.ec.order) ∧ (ecdsaSign E rounds m prv (some k) hasher).run = some (.ok rs) := by
  by_cases hm : m.length = 32
  · simp only [ecdsaSign, checkHashDigest, defaultHashDigestSize, hm, if_true, liftM_pure_bind,
      E.decodePrv_of_mem prv hprv.1 hprv.2, liftM_ok_bind] at h ⊢
    obtain ⟨k, hk, hg⟩ := rfc6979_bind_eq_ok E.ec.order hasher h
    exact ⟨k, hk, by rwa [E.decodePrv_of_mem k hk.1 hk.2, liftM_ok_bind]⟩
  · simp [ecdsaSign, checkHashDigest, defaultHashDigestSize, hm] at h

/-- A signature that `ecdsa_sign` returns on given keys in `(0, n)` is the raw
one, with neither component `0`, of a 32-byte message. -/
theorem ecdsaSign_eq_ok {rounds : Nat} {m : Bytes} {prv k : Int} {hasher : Hasher} {r s : Int}
    (hprv : 0 < prv ∧ prv < E.ec.order) (hk : 0 < k ∧ k < E.ec.order)
    (h : (ecdsaSign E rounds m prv (some k) hasher).run = some (.ok (r, s))) :
    m.length = 32 ∧ (r, s) = ecdsaSignRaw E (E.hashToInt m) prv k ∧ r ≠ 0 ∧ s ≠ 0 := by
  by_cases hm : m.length = 32
  · simp only [ecdsaSign, checkHashDigest, defaultHashDigestSize, hm, if_true, liftM_pure_bind,
      E.decodePrv_of_mem prv hprv.1 hprv.2, E.decodePrv_of_mem k hk.1 hk.2, liftM_ok_bind] at h
    generalize ecdsaSignRaw E (E.hashToInt m) prv k = rs at h ⊢
    obtain ⟨r', s'⟩ := rs
    split_ifs at h with hrs
    · simp only [pure_bind, ExceptT.run_pure, Option.some.injEq, Except.ok.injEq,
        Prod.mk.injEq] at h
      obtain ⟨rfl, rfl⟩ := h
      exact ⟨hm, rfl, hrs⟩
    · simp at h
  · simp [ecdsaSign, checkHashDigest, defaultHashDigestSize, hm] at h

/-- The signer's equation in `ZMod n`: `s = k⁻¹ (h + prv · r)`. -/
theorem ecdsaSignRaw_snd_cast (h prv k : Int) :
    ((ecdsaSignRaw E h prv k).2 : ZMod E.ec.order) =
      (k : ZMod E.ec.order)⁻¹ * (h + prv * (ecdsaSignRaw E h prv k).1) := by
  simp only [ecdsaSignRaw, ZMod.intCast_mod, Int.cast_mul, Int.cast_add,
    modInv_cast E.ec.order_prime]

/-- From `s = k⁻¹ (h + prv · r) ≠ 0`: `r s⁻¹ · prv + h s⁻¹ = k`. -/
theorem ecdsa_verify_coeff {n : Nat} (hn : n.Prime) {h prv k r s : ZMod n} (hs0 : s ≠ 0)
    (hs : s = k⁻¹ * (h + prv * r)) : r * s⁻¹ * prv + h * s⁻¹ = k := by
  haveI := Fact.mk hn
  have hk : k ≠ 0 := fun hk0 => hs0 (by rw [hs, hk0, inv_zero, zero_mul])
  have hX : h + prv * r = k * s := by rw [hs, ← mul_assoc, mul_inv_cancel₀ hk, one_mul]
  calc r * s⁻¹ * prv + h * s⁻¹ = s⁻¹ * (h + prv * r) := by ring
    _ = k := by rw [hX, mul_comm k, ← mul_assoc, inv_mul_cancel₀ hs0, one_mul]

/-- From `s = k⁻¹ (h + prv · r)` with `r ≠ 0`: `s r⁻¹ · k - h r⁻¹ = prv`. -/
theorem ecdsa_recover_coeff {n : Nat} (hn : n.Prime) {h prv k r s : ZMod n} (hr0 : r ≠ 0)
    (hk : k ≠ 0) (hs : s = k⁻¹ * (h + prv * r)) : s * r⁻¹ * k + -h * r⁻¹ = prv := by
  haveI := Fact.mk hn
  have hX : s * k = h + prv * r := by rw [hs, mul_comm, ← mul_assoc, mul_inv_cancel₀ hk, one_mul]
  calc s * r⁻¹ * k + -h * r⁻¹ = r⁻¹ * (s * k - h) := by ring
    _ = prv := by rw [hX, add_sub_cancel_left, mul_comm prv, ← mul_assoc, inv_mul_cancel₀ hr0,
      one_mul]

/-- The recoverer's coefficients applied to the verifier's point: with
`r, s ≠ 0`, `s r⁻¹ · (r s⁻¹) = 1` and `s r⁻¹ · (h s⁻¹) - h r⁻¹ = 0`. -/
theorem ecdsa_recover_verify_coeff {n : Nat} (hn : n.Prime) {h r s : ZMod n} (hr0 : r ≠ 0)
    (hs0 : s ≠ 0) : s * r⁻¹ * (r * s⁻¹) = 1 ∧ s * r⁻¹ * (h * s⁻¹) + -h * r⁻¹ = 0 := by
  haveI := Fact.mk hn
  constructor
  · calc s * r⁻¹ * (r * s⁻¹) = s * s⁻¹ * (r * r⁻¹) := by ring
      _ = 1 := by rw [mul_inv_cancel₀ hs0, mul_inv_cancel₀ hr0, one_mul]
  · calc s * r⁻¹ * (h * s⁻¹) + -h * r⁻¹ = h * r⁻¹ * (s * s⁻¹) - h * r⁻¹ := by ring
      _ = 0 := by rw [mul_inv_cancel₀ hs0, mul_one, sub_self]

/-- `check_dsasig` passes on two non-zero residues. -/
theorem checkDsasig_of_residues {r s : Int} (hr : 0 ≤ r ∧ r < E.ec.order)
    (hs : 0 ≤ s ∧ s < E.ec.order) (hr0 : r ≠ 0) (hs0 : s ≠ 0) : checkDsasig E (r, s) = .ok () := by
  simp only [checkDsasig]
  rw [if_pos ⟨by omega, hr.2, by omega, hs.2⟩]
  rfl

/-- What a signature of `ecdsa_sign` gives the verifier: `r = x(k·G) mod n` and
`s = k⁻¹ (h + prv · r)`, two non-zero residues, the message of 32 bytes. -/
theorem ecdsaSign_facts {rounds : Nat} {m : Bytes} {prv k : Int} {hasher : Hasher} {r s : Int}
    (hprv : 0 < prv ∧ prv < E.ec.order) (hk : 0 < k ∧ k < E.ec.order)
    (hsign : (ecdsaSign E rounds m prv (some k) hasher).run = some (.ok (r, s))) :
    m.length = 32 ∧ r = (E.ec.x (k • E.ec.G) : Int) % E.ec.order ∧
      (s : ZMod E.ec.order) = (k : ZMod E.ec.order)⁻¹ * (E.hashToInt m + prv * r) ∧
      checkDsasig E (r, s) = .ok () ∧ (s : ZMod E.ec.order) ≠ 0 ∧ (r : ZMod E.ec.order) ≠ 0 := by
  obtain ⟨hm, hraw, hr0, hs0⟩ := ecdsaSign_eq_ok E hprv hk hsign
  have hr : r = (ecdsaSignRaw E (E.hashToInt m) prv k).1 := by rw [← hraw]
  have hs : s = (ecdsaSignRaw E (E.hashToInt m) prv k).2 := by rw [← hraw]
  have hrr : 0 ≤ r ∧ r < E.ec.order := hr ▸ E.ec.emod_nonneg_lt _
  have hsr : 0 ≤ s ∧ s < E.ec.order := hs ▸ E.ec.emod_nonneg_lt _
  refine ⟨hm, hr, by rw [hs, ecdsaSignRaw_snd_cast, ← hr], checkDsasig_of_residues E hrr hsr hr0 hs0,
    ?_, ?_⟩
  · rwa [Ne, E.ec.cast_eq_zero_iff hsr.1 hsr.2]
  · rwa [Ne, E.ec.cast_eq_zero_iff hrr.1 hrr.2]

/-! ## The verifier -/

/-- The verifier's point is the signer's `k · G`. -/
theorem ecdsaVerifyRaw_point {h prv k r s : Int} (hs0 : (s : ZMod E.ec.order) ≠ 0)
    (hs : (s : ZMod E.ec.order) = (k : ZMod E.ec.order)⁻¹ * (h + prv * r)) :
    (r * modInv s E.ec.order % E.ec.order) • (prv • E.ec.G) +
      (h * modInv s E.ec.order % E.ec.order) • E.ec.G = k • E.ec.G := by
  haveI := Fact.mk E.ec.order_prime
  rw [smul_smul, ← add_smul]
  apply E.ec.zsmul_congr
  push_cast [ZMod.intCast_mod, modInv_cast E.ec.order_prime]
  exact ecdsa_verify_coeff E.ec.order_prime hs0 hs

/-- `ecdsa_verify` accepts, under `prv · G` for a key in `(0, n)`, a pair that
passes `check_dsasig` and satisfies the signer's equations `r = x(k·G) mod n`
and `s = k⁻¹ (h + prv · r) ≠ 0` for some `k`. -/
theorem ecdsaVerify_of_signing_eqs {m : Bytes} {prv k r s : Int}
    (hprv : 0 < prv ∧ prv < E.ec.order) (hm : m.length = 32)
    (hr : r = (E.ec.x (k • E.ec.G) : Int) % E.ec.order)
    (hs : (s : ZMod E.ec.order) = (k : ZMod E.ec.order)⁻¹ * (E.hashToInt m + prv * r))
    (hcheck : checkDsasig E (r, s) = .ok ()) (hs0 : (s : ZMod E.ec.order) ≠ 0) :
    ecdsaVerify E m (r, s) (prv • E.ec.G) = .ok true := by
  have hpub : prv • E.ec.G ≠ 0 := E.ec.zsmul_G_ne_zero (E.ec.cast_ne_zero_of_mem hprv)
  simp only [ecdsaVerify, checkHashDigest, defaultHashDigestSize, hm, if_true, hcheck,
    E.decodePub_of_ne_zero _ hpub, pure_eq_ok, ok_bind, ecdsaVerifyRaw,
    ecdsaVerifyRaw_point E hs0 hs]
  simp [← hr]

/-- `ecdsa_verify` accepts every signature that `ecdsa_sign` returns on keys in
`(0, n)`, under the signer's public key. -/
theorem ecdsaVerify_ecdsaSign {rounds : Nat} {m : Bytes} {prv k : Int} {hasher : Hasher}
    {r s : Int} (hprv : 0 < prv ∧ prv < E.ec.order) (hk : 0 < k ∧ k < E.ec.order)
    (hsign : (ecdsaSign E rounds m prv (some k) hasher).run = some (.ok (r, s))) :
    ecdsaVerify E m (r, s) (prv • E.ec.G) = .ok true := by
  obtain ⟨hm, hr, hs, hcheck, hs0, -⟩ := ecdsaSign_facts E hprv hk hsign
  exact ecdsaVerify_of_signing_eqs E hprv hm hr hs hcheck hs0

theorem ecdsaVerify_ecdsaSign_at_modSevenEnv :
    (0 < (2 : Int) ∧ (2 : Int) < modSevenEnv.ec.order) ∧
      (0 < (3 : Int) ∧ (3 : Int) < modSevenEnv.ec.order) ∧
      (ecdsaSign modSevenEnv 1 (List.replicate 32 0) 2 (some 3) lengthSumHasher).run =
        some (.ok (3, 2)) ∧
      ecdsaVerify modSevenEnv (List.replicate 32 0) (3, 2) ((2 : Int) • modSevenEnv.ec.G) =
        .ok true := by
  have hsign : (ecdsaSign modSevenEnv 1 (List.replicate 32 0) 2 (some 3) lengthSumHasher).run =
      some (.ok (3, 2)) := by decide
  exact ⟨by decide, by decide, hsign, ecdsaVerify_ecdsaSign modSevenEnv (by decide) (by decide) hsign⟩

/-- `ecdsa_verify` accepts every signature that `ecdsa_sign` returns with its
default nonce, the deterministic one of `rfc6979`, under the signer's public
key. -/
theorem ecdsaVerify_ecdsaSign_rfc6979 {rounds : Nat} {m : Bytes} {prv : Int} {hasher : Hasher}
    {r s : Int} (hprv : 0 < prv ∧ prv < E.ec.order)
    (hsign : (ecdsaSign E rounds m prv none hasher).run = some (.ok (r, s))) :
    ecdsaVerify E m (r, s) (prv • E.ec.G) = .ok true := by
  obtain ⟨k, hk, hsign⟩ := ecdsaSign_none_eq_ok E hprv hsign
  obtain ⟨hm, hr, hs, hcheck, hs0, -⟩ := ecdsaSign_facts E hprv hk hsign
  exact ecdsaVerify_of_signing_eqs E hprv hm hr hs hcheck hs0

set_option maxRecDepth 4000 in
theorem ecdsaVerify_ecdsaSign_rfc6979_at_modSevenEnv :
    (0 < (2 : Int) ∧ (2 : Int) < modSevenEnv.ec.order) ∧
      (ecdsaSign modSevenEnv 1 (List.replicate 32 0) 2 none sumByteHasher).run =
        some (.ok (2, 5)) ∧
      ecdsaVerify modSevenEnv (List.replicate 32 0) (2, 5) ((2 : Int) • modSevenEnv.ec.G) =
        .ok true := by
  have hsign : (ecdsaSign modSevenEnv 1 (List.replicate 32 0) 2 none sumByteHasher).run =
      some (.ok (2, 5)) := by decide
  exact ⟨by decide, hsign, ecdsaVerify_ecdsaSign_rfc6979 modSevenEnv (by decide) hsign⟩

/-! ## Recovery -/

/-- `ecdsa_recover` returns the signer's public key, given the parity of the
y-coordinate of `k · G`, when the x-coordinate of `k · G` is below `n`. -/
theorem ecdsaRecover_ecdsaSign {rounds : Nat} {m : Bytes} {prv k : Int} {hasher : Hasher}
    {r s : Int} (hprv : 0 < prv ∧ prv < E.ec.order) (hk : 0 < k ∧ k < E.ec.order)
    (hsign : (ecdsaSign E rounds m prv (some k) hasher).run = some (.ok (r, s)))
    (hx : E.ec.x (k • E.ec.G) < E.ec.order) :
    ecdsaRecover E m (r, s) (E.ec.y (k • E.ec.G) % 2 : Nat) = .ok (prv • E.ec.G) := by
  haveI := Fact.mk E.ec.order_prime
  obtain ⟨hm, hr, hs, hcheck, -, hr0⟩ := ecdsaSign_facts E hprv hk hsign
  have hR : k • E.ec.G ≠ 0 := E.ec.zsmul_G_ne_zero (E.ec.cast_ne_zero_of_mem hk)
  have hrx : r.toNat = E.ec.x (k • E.ec.G) := by
    rw [hr, Int.emod_eq_of_lt (by omega) (by exact_mod_cast hx)]
    rfl
  have hy : ((E.ec.y (k • E.ec.G) % 2 : Nat) : Int) ∈ [0, 1] := by
    simp only [List.mem_cons, List.mem_singleton, List.not_mem_nil, or_false]
    omega
  have hpoint : E.ec.point r.toNat (E.ec.xToY r.toNat ((E.ec.y (k • E.ec.G) % 2 : Nat) : Int).toNat) =
      k • E.ec.G := by
    rw [Int.toNat_natCast, hrx, E.ec.point_xToY hR rfl]
  simp only [ecdsaRecover, checkHashDigest, defaultHashDigestSize, hm, if_true, hcheck, hy,
    not_true_eq_false, if_false, pure_eq_ok, ok_bind, ecdsaRecoverRaw, hpoint, smul_smul,
    ← add_smul]
  congr 1
  apply E.ec.zsmul_congr
  push_cast [ZMod.intCast_mod, modInv_cast E.ec.order_prime]
  exact ecdsa_recover_coeff E.ec.order_prime hr0 (E.ec.cast_ne_zero_of_mem hk) hs

theorem ecdsaRecover_ecdsaSign_at_modSevenEnv :
    (0 < (2 : Int) ∧ (2 : Int) < modSevenEnv.ec.order) ∧
      (0 < (3 : Int) ∧ (3 : Int) < modSevenEnv.ec.order) ∧
      (ecdsaSign modSevenEnv 1 (List.replicate 32 0) 2 (some 3) lengthSumHasher).run =
        some (.ok (3, 2)) ∧
      modSevenEnv.ec.x ((3 : Int) • modSevenEnv.ec.G) < modSevenEnv.ec.order ∧
      ecdsaRecover modSevenEnv (List.replicate 32 0) (3, 2)
        (modSevenEnv.ec.y ((3 : Int) • modSevenEnv.ec.G) % 2 : Nat) =
        .ok ((2 : Int) • modSevenEnv.ec.G) := by
  have hsign : (ecdsaSign modSevenEnv 1 (List.replicate 32 0) 2 (some 3) lengthSumHasher).run =
      some (.ok (3, 2)) := by decide
  exact ⟨by decide, by decide, hsign, by decide,
    ecdsaRecover_ecdsaSign modSevenEnv (by decide) (by decide) hsign (by decide)⟩

/-- `ecdsa_recover_raw`, given the parity of the verifier's point
`R = (r s⁻¹) · pub + (h s⁻¹) · G`, returns every key under which
`ecdsa_verify_raw` accepts `(r, s)`, signed or forged, when `R` is finite (the
case the code leaves unmanaged) and `x(R) < n`, so that the `r` it rebuilds
`R` from is `x(R)` itself. Then `r` and `s` are non-zero residues, and
`r⁻¹ (s · R - h · G) = pub`. -/
theorem ecdsaRecoverRaw_of_ecdsaVerifyRaw {h r s : Int} {pub R : P}
    (hRdef : R = (r * modInv s E.ec.order % E.ec.order) • pub +
      (h * modInv s E.ec.order % E.ec.order) • E.ec.G)
    (hv : ecdsaVerifyRaw E h (r, s) pub = true) (hR : R ≠ 0) (hx : E.ec.x R < E.ec.order) :
    ecdsaRecoverRaw E h (r, s) (E.ec.y R % 2 : Nat) = pub := by
  haveI := Fact.mk E.ec.order_prime
  have hs0 : (s : ZMod E.ec.order) ≠ 0 := fun hs0 => hR (by
    have hzero : ∀ (a : Int) (Q : P), (a * modInv s E.ec.order % E.ec.order) • Q = 0 := fun a Q => by
      rw [E.ec.zsmul_congr (b := 0), zero_smul]
      push_cast [ZMod.intCast_mod, modInv_cast E.ec.order_prime, hs0]
      simp
    rw [hRdef, hzero, hzero, add_zero])
  have hr : (E.ec.x R : Int) = r := by
    simp only [ecdsaVerifyRaw, ← hRdef, decide_eq_true_eq] at hv
    rw [← hv, Int.emod_eq_of_lt (by omega) (by exact_mod_cast hx)]
  have hr0 : (r : ZMod E.ec.order) ≠ 0 :=
    E.ec.cast_ne_zero_of_mem ⟨hr ▸ by exact_mod_cast E.ec.x_pos _ hR, hr ▸ by exact_mod_cast hx⟩
  obtain ⟨hpub, hG⟩ := ecdsa_recover_verify_coeff E.ec.order_prime (h := (h : ZMod E.ec.order)) hr0 hs0
  have hrx : r.toNat = E.ec.x R := by omega
  simp only [ecdsaRecoverRaw, hrx, Int.toNat_natCast, E.ec.point_xToY hR rfl]
  rw [hRdef, smul_add, smul_smul, smul_smul, add_assoc, ← add_smul, E.ec.zsmul_congr (b := 1),
    E.ec.zsmul_congr (b := 0) (Q := E.ec.G), one_smul, zero_smul, add_zero]
  all_goals push_cast [ZMod.intCast_mod, modInv_cast E.ec.order_prime]
  exacts [hG, hpub]

theorem ecdsaRecoverRaw_of_ecdsaVerifyRaw_at_modSevenEnv :
    (3 : ZMod 7) = (3 * modInv 6 modSevenEnv.ec.order % modSevenEnv.ec.order) •
        ((2 : Int) • modSevenEnv.ec.G) +
      (5 * modInv 6 modSevenEnv.ec.order % modSevenEnv.ec.order) • modSevenEnv.ec.G ∧
      ecdsaVerifyRaw modSevenEnv 5 (3, 6) ((2 : Int) • modSevenEnv.ec.G) = true ∧
      (3 : ZMod 7) ≠ 0 ∧ modSevenEnv.ec.x 3 < modSevenEnv.ec.order ∧
      ecdsaRecoverRaw modSevenEnv 5 (3, 6) (modSevenEnv.ec.y 3 % 2 : Nat) =
        (2 : Int) • modSevenEnv.ec.G := by
  have hRdef : (3 : ZMod 7) = (3 * modInv 6 modSevenEnv.ec.order % modSevenEnv.ec.order) •
      ((2 : Int) • modSevenEnv.ec.G) +
      (5 * modInv 6 modSevenEnv.ec.order % modSevenEnv.ec.order) • modSevenEnv.ec.G := by decide
  have hv : ecdsaVerifyRaw modSevenEnv 5 (3, 6) ((2 : Int) • modSevenEnv.ec.G) = true := by decide
  have hR : (3 : ZMod 7) ≠ 0 := by decide
  have hx : modSevenEnv.ec.x 3 < modSevenEnv.ec.order := by decide
  exact ⟨hRdef, hv, hR, hx, ecdsaRecoverRaw_of_ecdsaVerifyRaw modSevenEnv hRdef hv hR hx⟩

/-- Every `(r, s)` with `s` in `(0, n)` that `ecdsa_verify_raw` accepts under
`prv · G`, with a finite point `R`, is what `ecdsa_sign_raw` returns for `prv`
and the nonce `k = s⁻¹ (h + prv · r) mod n`: `R = k · G`, so the signer finds
the same `r`, and `k⁻¹ (h + prv · r) = s`. -/
theorem ecdsaSignRaw_of_ecdsaVerifyRaw {h r s prv : Int} {R : P}
    (hRdef : R = (r * modInv s E.ec.order % E.ec.order) • (prv • E.ec.G) +
      (h * modInv s E.ec.order % E.ec.order) • E.ec.G)
    (hs : 0 < s ∧ s < E.ec.order) (hv : ecdsaVerifyRaw E h (r, s) (prv • E.ec.G) = true)
    (hR : R ≠ 0) {k : Int} (hk : k = modInv s E.ec.order * (h + prv * r) % E.ec.order) :
    (0 < k ∧ k < E.ec.order) ∧ ecdsaSignRaw E h prv k = (r, s) := by
  haveI := Fact.mk E.ec.order_prime
  have hkG : R = k • E.ec.G := by
    rw [hRdef, hk, smul_smul, ← add_smul]
    apply E.ec.zsmul_congr
    push_cast [ZMod.intCast_mod]
    ring
  have hkr := hk ▸ E.ec.emod_nonneg_lt (modInv s E.ec.order * (h + prv * r))
  have hk0 := E.ec.cast_ne_zero_of_zsmul_ne_zero (hkG ▸ hR)
  have hr : (E.ec.x R : Int) % E.ec.order = r := by
    simpa only [ecdsaVerifyRaw, ← hRdef, decide_eq_true_eq] using hv
  refine ⟨⟨lt_of_le_of_ne hkr.1 (fun h0 => hk0 (by rw [← h0, Int.cast_zero])), hkr.2⟩, ?_⟩
  simp only [ecdsaSignRaw, ← hkG, hr, Prod.mk.injEq, true_and]
  have hX : (h : ZMod E.ec.order) + prv * r ≠ 0 := fun hX => hk0 (by
    rw [hk]
    push_cast [ZMod.intCast_mod]
    rw [hX, mul_zero])
  rw [← Int.emod_eq_of_lt hs.1.le hs.2, ← ZMod.intCast_eq_intCast_iff', hk]
  push_cast [ZMod.intCast_mod, modInv_cast E.ec.order_prime]
  rw [mul_inv, inv_inv, mul_assoc, inv_mul_cancel₀ hX, mul_one]

theorem ecdsaSignRaw_of_ecdsaVerifyRaw_at_modSevenEnv :
    (3 : ZMod 7) = (3 * modInv 6 modSevenEnv.ec.order % modSevenEnv.ec.order) •
        ((2 : Int) • modSevenEnv.ec.G) +
      (5 * modInv 6 modSevenEnv.ec.order % modSevenEnv.ec.order) • modSevenEnv.ec.G ∧
      (0 < (6 : Int) ∧ (6 : Int) < modSevenEnv.ec.order) ∧
      ecdsaVerifyRaw modSevenEnv 5 (3, 6) ((2 : Int) • modSevenEnv.ec.G) = true ∧
      (3 : ZMod 7) ≠ 0 ∧
      (3 : Int) = modInv 6 modSevenEnv.ec.order * (5 + 2 * 3) % modSevenEnv.ec.order ∧
      (0 < (3 : Int) ∧ (3 : Int) < modSevenEnv.ec.order) ∧
        ecdsaSignRaw modSevenEnv 5 2 3 = (3, 6) := by
  have hRdef : (3 : ZMod 7) = (3 * modInv 6 modSevenEnv.ec.order % modSevenEnv.ec.order) •
      ((2 : Int) • modSevenEnv.ec.G) +
      (5 * modInv 6 modSevenEnv.ec.order % modSevenEnv.ec.order) • modSevenEnv.ec.G := by decide
  have hv : ecdsaVerifyRaw modSevenEnv 5 (3, 6) ((2 : Int) • modSevenEnv.ec.G) = true := by decide
  exact ⟨hRdef, by decide, hv, by decide, by decide,
    ecdsaSignRaw_of_ecdsaVerifyRaw modSevenEnv hRdef (by decide) hv (by decide) (by decide)⟩

/-! ## Malleability -/

/-- `ecdsa_verify_raw` gives the same answer on `(r, s)` and `(r, n - s)`: the
two recomputed points are opposite, and opposite points share their
x-coordinate. -/
theorem ecdsaVerifyRaw_neg_s (h r s : Int) (pub : P) :
    ecdsaVerifyRaw E h (r, s) pub = ecdsaVerifyRaw E h (r, E.ec.order - s) pub := by
  haveI := Fact.mk E.ec.order_prime
  have hneg : ∀ (a : Int) (Q : P), (a * modInv (E.ec.order - s) E.ec.order % E.ec.order) • Q =
      -((a * modInv s E.ec.order % E.ec.order) • Q) := fun a Q => by
    rw [← neg_smul]
    apply E.ec.zsmul_congr
    push_cast [ZMod.intCast_mod, modInv_cast E.ec.order_prime, ZMod.natCast_self]
    rw [zero_sub, inv_neg]
    ring
  simp only [ecdsaVerifyRaw, hneg, ← neg_add, E.ec.x_neg]

/-- `ecdsa_sign_raw` with the nonce `n - k` returns the malleated signature of
the nonce `k`: `(n - k) · G = -(k · G)` has the same x-coordinate, so the same
`r`, and `(n - k)⁻¹ = -k⁻¹` negates `s` modulo `n`. -/
theorem ecdsaSignRaw_neg_nonce (h prv k : Int) :
    ecdsaSignRaw E h prv (E.ec.order - k) =
      ((ecdsaSignRaw E h prv k).1, (E.ec.order - (ecdsaSignRaw E h prv k).2) % E.ec.order) := by
  haveI := Fact.mk E.ec.order_prime
  simp only [ecdsaSignRaw, E.ec.order_sub_zsmul, E.ec.x_neg, Prod.mk.injEq, true_and]
  rw [← ZMod.intCast_eq_intCast_iff']
  push_cast [ZMod.intCast_mod, modInv_cast E.ec.order_prime, ZMod.natCast_self]
  rw [zero_sub, inv_neg]
  ring

/-- `ecdsa_recover_raw` returns the same point for `(r, s)` with the parity `b`
of a finite point over `r`, and for `(r, n - s)` with the other parity: the
point it rebuilds is then the opposite one, and `(n - s) r⁻¹ · (-R) = s r⁻¹ · R`. -/
theorem ecdsaRecoverRaw_neg_s (h s : Int) {Q : P} (hQ : Q ≠ 0) :
    ecdsaRecoverRaw E h (E.ec.x Q, E.ec.order - s) ((1 - E.ec.y Q % 2 : Nat) : Int) =
      ecdsaRecoverRaw E h (E.ec.x Q, s) (E.ec.y Q % 2 : Nat) := by
  haveI := Fact.mk E.ec.order_prime
  have hy := E.ec.y_neg Q hQ
  have hneg : E.ec.point (E.ec.x Q) (E.ec.xToY (E.ec.x Q) (1 - E.ec.y Q % 2)) = -Q := by
    rw [← E.ec.x_neg, E.ec.point_xToY (neg_ne_zero.2 hQ) (by omega)]
  simp only [ecdsaRecoverRaw, Int.toNat_natCast, hneg, E.ec.point_xToY hQ rfl]
  congr 1
  rw [smul_neg, ← neg_smul]
  apply E.ec.zsmul_congr
  push_cast [ZMod.intCast_mod, ZMod.natCast_self]
  ring

theorem ecdsaRecoverRaw_neg_s_at_modSevenEnv :
    (3 : ZMod 7) ≠ 0 ∧
      ecdsaRecoverRaw modSevenEnv 5 (modSevenEnv.ec.x 3, modSevenEnv.ec.order - 6)
          ((1 - modSevenEnv.ec.y 3 % 2 : Nat) : Int) =
        ecdsaRecoverRaw modSevenEnv 5 (modSevenEnv.ec.x 3, 6) (modSevenEnv.ec.y 3 % 2 : Nat) :=
  ⟨by decide, ecdsaRecoverRaw_neg_s modSevenEnv 5 6 (by decide)⟩

end Scripts
end Btclib
