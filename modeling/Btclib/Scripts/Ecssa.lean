import Mathlib.Tactic.FieldSimp
import Btclib.Scripts.EcGroup

/-!
# ECSSA: `ecssa.py`

`ecssa_sign_raw(m, prv, k)` signs with the point `R = k·G`, replacing `k` by
`n - k` when `R` has an odd y-coordinate, so that the nonce it uses is the one
of the even-y point `±R`. With the challenge `e = hash_to_int(hasher(R_x + m))`
it returns `(x(R), (k' - e · prv) mod n)`. `ecssa_verify_raw` recomputes
`R = e · pub + s · G` and accepts when `R` has an even y-coordinate and the
signed x-coordinate; `ecssa_recover_raw` rebuilds the even-y `R` from its
x-coordinate and returns `e⁻¹ · R - (e⁻¹ s) · G`.

**A signature that `check_ssasig` rejects.** `ecssa_sign_raw` never checks
that `s ≠ 0`. When `k' ≡ e · prv (mod n)` it returns `s = 0`, and
`ecssa_verify` then raises `"s must be in [1..order]"` on the signer's own
signature. For every message and nonce whose challenge passes the signer's
check there is exactly one key in `(0, n)` for which this happens.

**Results.**
* `ecssaSignRaw_eq_ok_iff`: what `ecssa_sign_raw` returns.
* `even_nonce_point`: the nonce after normalisation gives an even-y point with
  the x-coordinate of `k · G`; `ecssaSignRaw_neg_nonce`: so the nonces `k` and
  `n - k` give the same signature.
* `ecssaVerifyRaw_ecssaSignRaw`: the raw verifier accepts every raw signature.
* `ecssaVerify_ecssaSign_of_ne_zero`: `ecssa_verify` accepts every signature of
  `ecssa_sign` with `s ≠ 0`; `ecssaVerify_ecssaSign_rfc6979_of_ne_zero`: also
  with the default nonce of `rfc6979`.
* `ecssaSign_zero_s_rejected`: the key that makes `s = 0`, on which
  `ecssa_verify` raises.
* `ecssaRecoverRaw_ecssaSignRaw`: recovery returns the signer's public key.
* `ecssaRecoverRaw_of_ecssaVerifyRaw`: recovery returns every key under which
  the verifier accepts a signature, so no signature is accepted under two keys.
* `ecssaSignRaw_of_ecssaVerifyRaw`: every signature the verifier accepts under
  `prv · G` is one that `ecssa_sign_raw` returns for `prv` and the nonce
  `(s + e · prv) mod n`.
-/

namespace Btclib
namespace Scripts

variable {P : Type} [AddCommGroup P] (E : EcEnv P)

/-- `hash_to_int(hasher(int_to_bytes(R_x, 32) + m).digest())`, the challenge
that `ecssa_sign_raw`, `ecssa_verify_raw` and `ecssa_recover_raw` compute. -/
def ecssaChallenge (hasher : Hasher) (Rx : Int) (m : Bytes) : Int :=
  E.hashToInt (hasher.digest (E.intToBytes Rx 32 ++ m))

/-- `ecssa_sign_raw`. -/
def ecssaSignRaw (m : Bytes) (prv ephPrv : Int) (hasher : Hasher) : Except PyExc (Int × Int) := do
  let R := ephPrv • E.ec.G
  let ephPrv := if E.ec.y R % 2 = 1 then E.ec.order - ephPrv else ephPrv
  let e := ecssaChallenge E hasher (E.ec.x R) m
  if ¬ (e ≠ 0 ∧ e < E.ec.order) then throw (.assertionError "sign fail")
  let s := (ephPrv - e * prv) % E.ec.order
  pure (E.ec.x R, s)

/-- `ecssa_sign`, with the RFC 6979 nonce loop allowed `rounds` rounds. -/
def ecssaSign (rounds : Nat) (m : Bytes) (prv : Int) (ephPrv : Option Int) (hasher : Hasher) :
    ExceptT PyExc Option (Int × Int) := do
  checkHashDigest m defaultHashDigestSize
  let prv ← E.decodePrv prv
  let ephPrv ← match ephPrv with
    | none => Int.ofNat <$> rfc6979 E.ec.order hasher rounds prv m
    | some ephPrv => E.decodePrv ephPrv
  ecssaSignRaw E m prv ephPrv hasher

/-- `check_ssasig`: `R.x` in `[1, prime)`, then `s` in `[1, n)`. -/
def checkSsasig (ssasig : Int × Int) : Except PyExc Unit := do
  if ¬ (0 < ssasig.1 ∧ ssasig.1 < E.ec.prime) then throw (.assertionError "R.x must be in [1..prime]")
  if ¬ (0 < ssasig.2 ∧ ssasig.2 < E.ec.order) then throw (.assertionError "s must be in [1..order]")

/-- `ecssa_verify_raw`. -/
def ecssaVerifyRaw (m : Bytes) (ssasig : Int × Int) (pub : P) (hasher : Hasher) : Bool :=
  let e := ecssaChallenge E hasher ssasig.1 m
  if e = 0 ∨ e ≥ E.ec.order then false
  else
    let R := e • pub + ssasig.2 • E.ec.G
    if E.ec.y R % 2 = 1 then false else decide ((E.ec.x R : Int) = ssasig.1)

/-- `ecssa_verify`. -/
def ecssaVerify (m : Bytes) (ssasig : Int × Int) (pub : P) (hasher : Hasher) : Except PyExc Bool := do
  checkHashDigest m defaultHashDigestSize
  checkSsasig E ssasig
  let pub ← E.decodePub pub
  pure (ecssaVerifyRaw E m ssasig pub hasher)

/-- `ecssa_recover_raw`: `R` is the point `(R_x, ec_x_to_y(R_x, 0))`. -/
def ecssaRecoverRaw (m : Bytes) (ssasig : Int × Int) (hasher : Hasher) : Except PyExc P := do
  let (Rx, s) := ssasig
  let R := E.ec.point Rx.toNat (E.ec.xToY Rx.toNat 0)
  let e := ecssaChallenge E hasher Rx m
  if ¬ (e ≠ 0 ∧ e < E.ec.order) then throw (.assertionError "invalid e value")
  let e1 := modInv e E.ec.order
  pure (e1 • R + (-e1 * s % E.ec.order) • E.ec.G)

/-- `ecssa_recover`. -/
def ecssaRecover (m : Bytes) (ssasig : Int × Int) (hasher : Hasher) : Except PyExc P := do
  checkHashDigest m defaultHashDigestSize
  checkSsasig E ssasig
  ecssaRecoverRaw E m ssasig hasher

/-! ## The signer -/

/-- What `ecssa_sign_raw` returns: the x-coordinate of `k · G` and
`(k' - e · prv) mod n`, when the challenge `e` of that x-coordinate is in
`(0, n)`. -/
theorem ecssaSignRaw_eq_ok_iff {m : Bytes} {prv k : Int} {hasher : Hasher} {x s : Int} :
    ecssaSignRaw E m prv k hasher = .ok (x, s) ↔
      x = E.ec.x (k • E.ec.G) ∧
        (ecssaChallenge E hasher x m ≠ 0 ∧ ecssaChallenge E hasher x m < E.ec.order) ∧
        s = ((if E.ec.y (k • E.ec.G) % 2 = 1 then E.ec.order - k else k) -
          ecssaChallenge E hasher x m * prv) % E.ec.order := by
  simp only [ecssaSignRaw]
  generalize (if E.ec.y (k • E.ec.G) % 2 = 1 then (E.ec.order : Int) - k else k) = k'
  by_cases he : ecssaChallenge E hasher (E.ec.x (k • E.ec.G)) m ≠ 0 ∧
      ecssaChallenge E hasher (E.ec.x (k • E.ec.G)) m < E.ec.order
  · rw [if_neg (not_not.2 he)]
    simp only [pure_bind, pure_eq_ok, Except.ok.injEq, Prod.mk.injEq]
    constructor
    · rintro ⟨rfl, rfl⟩
      exact ⟨rfl, he, rfl⟩
    · rintro ⟨rfl, -, rfl⟩
      rfl
  · rw [if_pos he]
    simp only [throw_eq_error, error_bind, reduceCtorEq, false_iff]
    rintro ⟨rfl, hc, -⟩
    exact he hc

/-- A challenge that passes the check is a non-zero residue. -/
theorem ecssaChallenge_cast_ne_zero {hasher : Hasher} {Rx : Int} {m : Bytes}
    (he : ecssaChallenge E hasher Rx m ≠ 0 ∧ ecssaChallenge E hasher Rx m < E.ec.order) :
    (ecssaChallenge E hasher Rx m : ZMod E.ec.order) ≠ 0 :=
  E.ec.cast_ne_zero_of_mem ⟨lt_of_le_of_ne (E.hashToInt_nonneg _) (Ne.symm he.1), he.2⟩

/-- The even-y normalisation: with `k' = n - k` when `k · G` has an odd
y-coordinate and `k' = k` otherwise, `k' · G` is a finite point with an even
y-coordinate and the x-coordinate of `k · G`. -/
theorem even_nonce_point {k k' : Int} (hR : k • E.ec.G ≠ 0)
    (hk' : k' = if E.ec.y (k • E.ec.G) % 2 = 1 then E.ec.order - k else k) :
    k' • E.ec.G ≠ 0 ∧ E.ec.x (k' • E.ec.G) = E.ec.x (k • E.ec.G) ∧ E.ec.y (k' • E.ec.G) % 2 = 0 := by
  subst hk'
  split_ifs with hy
  · have hneg := E.ec.y_neg _ hR
    rw [E.ec.order_sub_zsmul, E.ec.x_neg]
    exact ⟨neg_ne_zero.2 hR, rfl, by omega⟩
  · exact ⟨hR, rfl, by omega⟩

/-- `ecssa_sign_raw` signs alike with the nonces `k` and `n - k`: their points
are opposite, with one x-coordinate and y-coordinates of both parities, and the
normalisation picks the nonce of the even one from either. -/
theorem ecssaSignRaw_neg_nonce {m : Bytes} {prv k : Int} {hasher : Hasher}
    (hk : (k : ZMod E.ec.order) ≠ 0) :
    ecssaSignRaw E m prv (E.ec.order - k) hasher = ecssaSignRaw E m prv k hasher := by
  have hy := E.ec.y_neg _ (E.ec.zsmul_G_ne_zero hk)
  have hk' : (if E.ec.y (-(k • E.ec.G)) % 2 = 1 then (E.ec.order : Int) - (E.ec.order - k)
      else E.ec.order - k) = if E.ec.y (k • E.ec.G) % 2 = 1 then E.ec.order - k else k := by
    split_ifs <;> omega
  simp only [ecssaSignRaw, E.ec.order_sub_zsmul, E.ec.x_neg, hk']

theorem ecssaSignRaw_neg_nonce_at_modSevenEnv :
    ((3 : Int) : ZMod modSevenEnv.ec.order) ≠ 0 ∧
      ecssaSignRaw modSevenEnv (List.replicate 32 0) 2 (modSevenEnv.ec.order - 3) sumByteHasher =
        ecssaSignRaw modSevenEnv (List.replicate 32 0) 2 3 sumByteHasher :=
  ⟨by decide, ecssaSignRaw_neg_nonce modSevenEnv (by decide)⟩

/-- `ecssa_sign` with a nonce decodes both keys and calls `ecssa_sign_raw`. -/
theorem ecssaSign_run {rounds : Nat} {m : Bytes} {prv k : Int} {hasher : Hasher}
    (hm : m.length = 32) (hprv : 0 < prv ∧ prv < E.ec.order) (hk : 0 < k ∧ k < E.ec.order) :
    (ecssaSign E rounds m prv (some k) hasher).run = some (ecssaSignRaw E m prv k hasher) := by
  simp only [ecssaSign, checkHashDigest, defaultHashDigestSize, hm, if_true, liftM_pure_bind,
    E.decodePrv_of_mem prv hprv.1 hprv.2, E.decodePrv_of_mem k hk.1 hk.2, liftM_ok_bind]
  cases ecssaSignRaw E m prv k hasher <;> rfl

/-- Without a nonce, `ecssa_sign` returns what it returns with the nonce of
`rfc6979`, which is in `(0, n)`, on a 32-byte message. -/
theorem ecssaSign_none_eq_ok {rounds : Nat} {m : Bytes} {prv : Int} {hasher : Hasher}
    {xs : Int × Int} (hprv : 0 < prv ∧ prv < E.ec.order)
    (h : (ecssaSign E rounds m prv none hasher).run = some (.ok xs)) :
    m.length = 32 ∧ ∃ k : Int, (0 < k ∧ k < E.ec.order) ∧
      (ecssaSign E rounds m prv (some k) hasher).run = some (.ok xs) := by
  by_cases hm : m.length = 32
  · refine ⟨hm, ?_⟩
    simp only [ecssaSign, checkHashDigest, defaultHashDigestSize, hm, if_true, liftM_pure_bind,
      E.decodePrv_of_mem prv hprv.1 hprv.2, liftM_ok_bind] at h ⊢
    obtain ⟨k, hk, hg⟩ := rfc6979_bind_eq_ok E.ec.order hasher h
    exact ⟨k, hk, by rwa [E.decodePrv_of_mem k hk.1 hk.2, liftM_ok_bind]⟩
  · simp [ecssaSign, checkHashDigest, defaultHashDigestSize, hm] at h

/-! ## The verifier -/

/-- On the x-coordinate of a finite point, `check_ssasig` checks only `s`. -/
theorem checkSsasig_x {Q : P} (hQ : Q ≠ 0) (s : Int) :
    checkSsasig E (E.ec.x Q, s) = if 0 < s ∧ s < E.ec.order then .ok ()
      else .error (.assertionError "s must be in [1..order]") := by
  have := E.ec.x_pos _ hQ
  have := E.ec.x_lt_prime _ hQ
  simp only [checkSsasig]
  rw [if_neg (by omega)]
  split_ifs <;> rfl

/-- `ecssa_verify_raw` accepts every signature of `ecssa_sign_raw` with a nonce
in `(0, n)`, under the signer's public key: `e · (prv · G) + s · G` is the
even-y point `k' · G`. -/
theorem ecssaVerifyRaw_ecssaSignRaw {m : Bytes} {prv k : Int} {hasher : Hasher} {x s : Int}
    (hk : 0 < k ∧ k < E.ec.order) (h : ecssaSignRaw E m prv k hasher = .ok (x, s)) :
    ecssaVerifyRaw E m (x, s) (prv • E.ec.G) hasher = true := by
  obtain ⟨rfl, he, rfl⟩ := (ecssaSignRaw_eq_ok_iff E).1 h
  obtain ⟨-, hx, hy⟩ := even_nonce_point E (E.ec.zsmul_G_ne_zero (E.ec.cast_ne_zero_of_mem hk)) rfl
  simp only [ecssaVerifyRaw]
  generalize (if E.ec.y (k • E.ec.G) % 2 = 1 then (E.ec.order : Int) - k else k) = k' at hx hy ⊢
  generalize ecssaChallenge E hasher (E.ec.x (k • E.ec.G)) m = e at he ⊢
  have hR : e • prv • E.ec.G + ((k' - e * prv) % E.ec.order) • E.ec.G = k' • E.ec.G := by
    rw [smul_smul, ← add_smul]
    apply E.ec.zsmul_congr
    push_cast [ZMod.intCast_mod]
    ring
  simp [hR, hx, hy, he.1, not_le.2 he.2]

/-- `ecssa_verify` accepts every signature of `ecssa_sign` with keys in
`(0, n)` whose `s` is not `0`. -/
theorem ecssaVerify_ecssaSign_of_ne_zero {rounds : Nat} {m : Bytes} {prv k : Int}
    {hasher : Hasher} {x s : Int} (hm : m.length = 32) (hprv : 0 < prv ∧ prv < E.ec.order)
    (hk : 0 < k ∧ k < E.ec.order)
    (h : (ecssaSign E rounds m prv (some k) hasher).run = some (.ok (x, s))) (hs : s ≠ 0) :
    ecssaVerify E m (x, s) (prv • E.ec.G) hasher = .ok true := by
  rw [ecssaSign_run E hm hprv hk, Option.some.injEq] at h
  have hR : k • E.ec.G ≠ 0 := E.ec.zsmul_G_ne_zero (E.ec.cast_ne_zero_of_mem hk)
  obtain ⟨hx, -, hs'⟩ := (ecssaSignRaw_eq_ok_iff E).1 h
  have hsr := hs' ▸ E.ec.emod_nonneg_lt _
  have hcheck : checkSsasig E (x, s) = .ok () := by
    rw [hx, checkSsasig_x E hR, if_pos ⟨by omega, hsr.2⟩]
  simp only [ecssaVerify, checkHashDigest, defaultHashDigestSize, hm, if_true, hcheck,
    E.decodePub_of_ne_zero _ (E.ec.zsmul_G_ne_zero (E.ec.cast_ne_zero_of_mem hprv)), pure_eq_ok,
    ok_bind, ecssaVerifyRaw_ecssaSignRaw E hk h]

/-- `ecssa_verify` accepts every signature with `s ≠ 0` that `ecssa_sign`
returns with its default nonce, the deterministic one of `rfc6979`. -/
theorem ecssaVerify_ecssaSign_rfc6979_of_ne_zero {rounds : Nat} {m : Bytes} {prv : Int}
    {hasher : Hasher} {x s : Int} (hprv : 0 < prv ∧ prv < E.ec.order)
    (h : (ecssaSign E rounds m prv none hasher).run = some (.ok (x, s))) (hs : s ≠ 0) :
    ecssaVerify E m (x, s) (prv • E.ec.G) hasher = .ok true := by
  obtain ⟨hm, k, hk, h⟩ := ecssaSign_none_eq_ok E hprv h
  exact ecssaVerify_ecssaSign_of_ne_zero E hm hprv hk h hs

set_option maxRecDepth 4000 in
theorem ecssaVerify_ecssaSign_rfc6979_of_ne_zero_at_modSevenEnv :
    (0 < (2 : Int) ∧ (2 : Int) < modSevenEnv.ec.order) ∧
      (ecssaSign modSevenEnv 1 (List.replicate 32 0) 2 none sumByteHasher).run =
        some (.ok (2, 5)) ∧ (5 : Int) ≠ 0 ∧
      ecssaVerify modSevenEnv (List.replicate 32 0) (2, 5) ((2 : Int) • modSevenEnv.ec.G)
        sumByteHasher = .ok true := by
  have hsign : (ecssaSign modSevenEnv 1 (List.replicate 32 0) 2 none sumByteHasher).run =
      some (.ok (2, 5)) := by decide
  exact ⟨by decide, hsign, by decide,
    ecssaVerify_ecssaSign_rfc6979_of_ne_zero modSevenEnv (by decide) hsign (by decide)⟩

/-- `ecssa_sign` emits `s = 0`, and `ecssa_verify` raises on it: for every
32-byte message and nonce `k` in `(0, n)` whose challenge passes the signer's
check, the key `prv = k' e⁻¹ mod n`, in `(0, n)`, makes `ecssa_sign` return
`(x(k·G), 0)`, which `check_ssasig` rejects under the signer's own key. -/
theorem ecssaSign_zero_s_rejected (rounds : Nat) {m : Bytes} (hm : m.length = 32) (hasher : Hasher)
    {k : Int} (hk : 0 < k ∧ k < E.ec.order)
    (he : ecssaChallenge E hasher (E.ec.x (k • E.ec.G)) m ≠ 0 ∧
      ecssaChallenge E hasher (E.ec.x (k • E.ec.G)) m < E.ec.order) :
    ∃ prv : Int, (0 < prv ∧ prv < E.ec.order) ∧
      (ecssaSign E rounds m prv (some k) hasher).run = some (.ok (E.ec.x (k • E.ec.G), 0)) ∧
      ecssaVerify E m (E.ec.x (k • E.ec.G), 0) (prv • E.ec.G) hasher =
        .error (.assertionError "s must be in [1..order]") := by
  haveI := Fact.mk E.ec.order_prime
  have hR : k • E.ec.G ≠ 0 := E.ec.zsmul_G_ne_zero (E.ec.cast_ne_zero_of_mem hk)
  have he0 := ecssaChallenge_cast_ne_zero E he
  generalize hk' : (if E.ec.y (k • E.ec.G) % 2 = 1 then (E.ec.order : Int) - k else k) = k'
  generalize hed : ecssaChallenge E hasher (E.ec.x (k • E.ec.G)) m = e at he he0
  have hk'0 := E.ec.cast_ne_zero_of_zsmul_ne_zero (even_nonce_point E hR hk'.symm).1
  have hprv := E.ec.mul_modInv_emod_mem hk'0 he0
  refine ⟨_, hprv, ?_, ?_⟩
  · -- `s = (k' - e · (k' e⁻¹)) mod n`, which is `0`
    rw [ecssaSign_run E hm hprv hk, (ecssaSignRaw_eq_ok_iff E).2 ⟨rfl, hed ▸ he, ?_⟩]
    rw [hk', hed]
    refine (Int.emod_eq_zero_of_dvd ((ZMod.intCast_zmod_eq_zero_iff_dvd _ _).1 ?_)).symm
    push_cast [ZMod.intCast_mod, modInv_cast E.ec.order_prime]
    field_simp
  · simp only [ecssaVerify, checkHashDigest, defaultHashDigestSize, hm, if_true, checkSsasig_x E hR]
    rw [if_neg (by omega)]
    rfl

/-- A 32-byte hasher whose digest is the sum of the bytes of its input. -/
def byteSumHasher : Hasher where
  digest b := toBytesBE 32 (b.map Fin.val).sum
  digestSize := 32
  blockSize := 64
  length_digest _ := length_toBytesBE _ _
  digestSize_pos := by decide

theorem ecssaSign_zero_s_rejected_at_modSevenEnv :
    (List.replicate 32 (0 : Byte)).length = 32 ∧ (0 < (3 : Int) ∧ (3 : Int) < modSevenEnv.ec.order) ∧
      (ecssaChallenge modSevenEnv byteSumHasher (modSevenEnv.ec.x ((3 : Int) • modSevenEnv.ec.G))
          (List.replicate 32 0) ≠ 0 ∧
        ecssaChallenge modSevenEnv byteSumHasher (modSevenEnv.ec.x ((3 : Int) • modSevenEnv.ec.G))
          (List.replicate 32 0) < modSevenEnv.ec.order) ∧
      ∃ prv : Int, (0 < prv ∧ prv < modSevenEnv.ec.order) ∧
        (ecssaSign modSevenEnv 1 (List.replicate 32 0) prv (some 3) byteSumHasher).run =
          some (.ok (modSevenEnv.ec.x ((3 : Int) • modSevenEnv.ec.G), 0)) ∧
        ecssaVerify modSevenEnv (List.replicate 32 0) (modSevenEnv.ec.x ((3 : Int) • modSevenEnv.ec.G), 0)
          (prv • modSevenEnv.ec.G) byteSumHasher = .error (.assertionError "s must be in [1..order]") :=
  ⟨rfl, by decide, by decide,
    ecssaSign_zero_s_rejected modSevenEnv 1 (by rfl) byteSumHasher (by decide) (by decide)⟩

/-! ## Recovery -/

/-- `ecssa_recover_raw` returns the signer's public key from every signature of
`ecssa_sign_raw` with a nonce in `(0, n)`: the even-y point it rebuilds is the
signer's `k' · G`, and `e⁻¹ (k' - s) = prv` modulo `n`. -/
theorem ecssaRecoverRaw_ecssaSignRaw {m : Bytes} {prv k : Int} {hasher : Hasher} {x s : Int}
    (hk : 0 < k ∧ k < E.ec.order) (h : ecssaSignRaw E m prv k hasher = .ok (x, s)) :
    ecssaRecoverRaw E m (x, s) hasher = .ok (prv • E.ec.G) := by
  haveI := Fact.mk E.ec.order_prime
  obtain ⟨rfl, he, rfl⟩ := (ecssaSignRaw_eq_ok_iff E).1 h
  obtain ⟨hR', hx, hy⟩ := even_nonce_point E (E.ec.zsmul_G_ne_zero (E.ec.cast_ne_zero_of_mem hk)) rfl
  have he0 := ecssaChallenge_cast_ne_zero E he
  simp only [ecssaRecoverRaw, Int.toNat_natCast, ← hx, E.ec.point_xToY hR' hy]
  rw [if_neg (not_not.2 (hx ▸ he)), hx]
  simp only [pure_bind, pure_eq_ok, ok_bind, Except.ok.injEq, smul_smul, ← add_smul]
  apply E.ec.zsmul_congr
  generalize (if E.ec.y (k • E.ec.G) % 2 = 1 then (E.ec.order : Int) - k else k) = k'
  generalize ecssaChallenge E hasher (E.ec.x (k • E.ec.G)) m = e at he0 ⊢
  push_cast [ZMod.intCast_mod, modInv_cast E.ec.order_prime]
  field_simp

theorem ecssaRecoverRaw_ecssaSignRaw_at_modSevenEnv :
    (0 < (3 : Int) ∧ (3 : Int) < modSevenEnv.ec.order) ∧
      ecssaSignRaw modSevenEnv (List.replicate 32 0) 2 3 byteSumHasher = .ok (3, 4) ∧
      ecssaRecoverRaw modSevenEnv (List.replicate 32 0) (3, 4) byteSumHasher =
        .ok ((2 : Int) • modSevenEnv.ec.G) := by
  have hsign : ecssaSignRaw modSevenEnv (List.replicate 32 0) 2 3 byteSumHasher = .ok (3, 4) := by
    decide
  exact ⟨by decide, hsign, ecssaRecoverRaw_ecssaSignRaw modSevenEnv (by decide) hsign⟩

/-- `ecssa_recover_raw` returns every key under which `ecssa_verify_raw`
accepts a signature, signed or forged, when the verifier's point
`e · pub + s · G` is finite (the case the code leaves unmanaged): that point is
the even-y point over the signed x-coordinate, which the recoverer rebuilds,
and `e⁻¹ (e · pub + s · G) - (e⁻¹ s) · G = pub`. -/
theorem ecssaRecoverRaw_of_ecssaVerifyRaw {m : Bytes} {x s : Int} {pub : P} {hasher : Hasher}
    (hv : ecssaVerifyRaw E m (x, s) pub hasher = true)
    (hR : ecssaChallenge E hasher x m • pub + s • E.ec.G ≠ 0) :
    ecssaRecoverRaw E m (x, s) hasher = .ok pub := by
  haveI := Fact.mk E.ec.order_prime
  have hc0 : 0 ≤ ecssaChallenge E hasher x m := E.hashToInt_nonneg _
  simp only [ecssaVerifyRaw, ecssaRecoverRaw] at hv ⊢
  generalize ecssaChallenge E hasher x m = e at *
  split_ifs at hv with he hy
  obtain rfl : (E.ec.x (e • pub + s • E.ec.G) : Int) = x := of_decide_eq_true hv
  have he0 : (e : ZMod E.ec.order) ≠ 0 := E.ec.cast_ne_zero_of_mem ⟨by omega, by omega⟩
  rw [Int.toNat_natCast, E.ec.point_xToY hR (by omega), if_neg (by omega)]
  simp only [ok_bind, pure_eq_ok, smul_add, smul_smul, add_assoc, ← add_smul]
  rw [E.ec.zsmul_congr (b := 1), E.ec.zsmul_congr (b := 0) (Q := E.ec.G), one_smul, zero_smul,
    add_zero]
  all_goals push_cast [ZMod.intCast_mod, modInv_cast E.ec.order_prime]
  · ring
  · field_simp

theorem ecssaRecoverRaw_of_ecssaVerifyRaw_at_modSevenEnv :
    ecssaVerifyRaw modSevenEnv (List.replicate 32 0) (3, 4) ((2 : Int) • modSevenEnv.ec.G)
        byteSumHasher = true ∧
      ecssaChallenge modSevenEnv byteSumHasher 3 (List.replicate 32 0) •
          ((2 : Int) • modSevenEnv.ec.G) + (4 : Int) • modSevenEnv.ec.G ≠ 0 ∧
      ecssaRecoverRaw modSevenEnv (List.replicate 32 0) (3, 4) byteSumHasher =
        .ok ((2 : Int) • modSevenEnv.ec.G) := by
  have hv : ecssaVerifyRaw modSevenEnv (List.replicate 32 0) (3, 4) ((2 : Int) • modSevenEnv.ec.G)
      byteSumHasher = true := by decide
  have hR : ecssaChallenge modSevenEnv byteSumHasher 3 (List.replicate 32 0) •
      ((2 : Int) • modSevenEnv.ec.G) + (4 : Int) • modSevenEnv.ec.G ≠ 0 := by decide
  exact ⟨hv, hR, ecssaRecoverRaw_of_ecssaVerifyRaw modSevenEnv hv hR⟩

/-! ## What the verifier accepts -/

/-- Every signature `(x, s)` with `s` in `[0, n)` that `ecssa_verify_raw`
accepts under `prv · G`, with a finite point `e · pub + s · G`, is what
`ecssa_sign_raw` returns for `prv` and the nonce `k = (s + e · prv) mod n`:
`k · G` is the verifier's even-y point, so the signer keeps `k`, reads the same
challenge, and returns `(k - e · prv) mod n = s`. -/
theorem ecssaSignRaw_of_ecssaVerifyRaw {m : Bytes} {x s prv : Int} {hasher : Hasher}
    (hs : 0 ≤ s ∧ s < E.ec.order) (hv : ecssaVerifyRaw E m (x, s) (prv • E.ec.G) hasher = true)
    (hR : ecssaChallenge E hasher x m • prv • E.ec.G + s • E.ec.G ≠ 0) {k : Int}
    (hk : k = (s + ecssaChallenge E hasher x m * prv) % E.ec.order) :
    (0 < k ∧ k < E.ec.order) ∧ ecssaSignRaw E m prv k hasher = .ok (x, s) := by
  haveI := Fact.mk E.ec.order_prime
  have hkG : ecssaChallenge E hasher x m • prv • E.ec.G + s • E.ec.G = k • E.ec.G := by
    rw [hk, smul_smul, ← add_smul, E.ec.emod_zsmul, add_comm]
  have hkr := hk ▸ E.ec.emod_nonneg_lt (s + ecssaChallenge E hasher x m * prv)
  rw [hkG] at hR
  have hk0 := E.ec.cast_ne_zero_of_zsmul_ne_zero hR
  rw [Ne, E.ec.cast_eq_zero_iff hkr.1 hkr.2] at hk0
  simp only [ecssaVerifyRaw, hkG] at hv
  split_ifs at hv with he hy
  refine ⟨⟨by omega, hkr.2⟩, (ecssaSignRaw_eq_ok_iff E).2 ⟨(of_decide_eq_true hv).symm, by omega, ?_⟩⟩
  rw [if_neg hy, hk, ← Int.emod_eq_of_lt hs.1 hs.2, ← ZMod.intCast_eq_intCast_iff']
  push_cast [ZMod.intCast_mod]
  ring

theorem ecssaSignRaw_of_ecssaVerifyRaw_at_modSevenEnv :
    (0 ≤ (4 : Int) ∧ (4 : Int) < modSevenEnv.ec.order) ∧
      ecssaVerifyRaw modSevenEnv (List.replicate 32 0) (3, 4) ((2 : Int) • modSevenEnv.ec.G)
        byteSumHasher = true ∧
      ecssaChallenge modSevenEnv byteSumHasher 3 (List.replicate 32 0) •
          (2 : Int) • modSevenEnv.ec.G + (4 : Int) • modSevenEnv.ec.G ≠ 0 ∧
      (3 : Int) = (4 + ecssaChallenge modSevenEnv byteSumHasher 3 (List.replicate 32 0) * 2) %
        modSevenEnv.ec.order ∧
      (0 < (3 : Int) ∧ (3 : Int) < modSevenEnv.ec.order) ∧
        ecssaSignRaw modSevenEnv (List.replicate 32 0) 2 3 byteSumHasher = .ok (3, 4) := by
  have hv : ecssaVerifyRaw modSevenEnv (List.replicate 32 0) (3, 4) ((2 : Int) • modSevenEnv.ec.G)
      byteSumHasher = true := by decide
  have hR : ecssaChallenge modSevenEnv byteSumHasher 3 (List.replicate 32 0) •
      (2 : Int) • modSevenEnv.ec.G + (4 : Int) • modSevenEnv.ec.G ≠ 0 := by decide
  exact ⟨by decide, hv, hR, by decide,
    ecssaSignRaw_of_ecssaVerifyRaw modSevenEnv (by decide) hv hR (by decide)⟩

end Scripts
end Btclib
