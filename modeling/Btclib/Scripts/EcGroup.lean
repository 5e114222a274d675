import Btclib.Collaborators
import Btclib.Scripts.Rfc6979

/-!
# The curve in the group model

`ecdsa.py` and `ecssa.py` take their curve arithmetic from `ECsecp256k1`
(`pointAdd`, `pointMultiply`, `G`, `order`, `prime`), the modular inverse from
`FiniteFields` and their helpers from `ecutils`; none of these modules is among
the sources. They are modelled as a group: `pointAdd` is `+`, and
`pointMultiply(a, P)` is `a • P` in an additive group in which every point has
an order dividing the prime `n`. A point is read through its coordinates
`P[0]` and `P[1]`, and a pair of coordinates is read back as a point.

The laws are those of secp256k1 that the scripts rely on: `-P` has the
x-coordinate of `P` and, away from the point at infinity, a y-coordinate of the
other parity; `ec_x_to_y(x, b)` is the y-coordinate of parity `b` over `x`; and
no finite point has x-coordinate 0 (7 is not a square modulo the field prime).

**Results.**
* `zsmul_congr`: `a • P` depends only on `a` modulo `n`.
* `modInv_cast`: `modInv(a, n)` is the inverse of `a` in `ZMod n`.
* `zsmul_G_ne_zero`: a multiple of `G` by a non-zero residue is not the point
  at infinity.
* `point_xToY`: a finite point is rebuilt from its x-coordinate and a parity.
-/

namespace Btclib
namespace Scripts

/-- Modelled from the spec: the curve of `ECsecp256k1` in the group model. -/
structure EcGroup (P : Type) [AddCommGroup P] where
  /-- `order`, the prime `n`. -/
  order : Nat
  /-- `prime`, the size of the coordinate field. -/
  prime : Nat
  /-- `G`. -/
  G : P
  /-- `P[0]`, the x-coordinate. -/
  x : P → Nat
  /-- `P[1]`, the y-coordinate. -/
  y : P → Nat
  /-- The pair `(x, y)` used as a point. -/
  point : Nat → Nat → P
  /-- `ec_x_to_y(x, y_mod_2)`. -/
  xToY : Nat → Nat → Nat
  order_prime : order.Prime
  order_zsmul : ∀ Q : P, (order : Int) • Q = 0
  G_ne_zero : G ≠ 0
  point_xy : ∀ Q, point (x Q) (y Q) = Q
  x_neg : ∀ Q, x (-Q) = x Q
  y_neg : ∀ Q, Q ≠ 0 → y (-Q) % 2 ≠ y Q % 2
  xToY_xy : ∀ Q, Q ≠ 0 → xToY (x Q) (y Q % 2) = y Q
  x_pos : ∀ Q, Q ≠ 0 → 0 < x Q
  x_lt_prime : ∀ Q, Q ≠ 0 → x Q < prime

/-- Modelled from the spec: `modInv(a, m)` of `FiniteFields`, which is not among
the sources: the inverse of `a` modulo `m`, the `b` in `[0, m)` with
`a * b ≡ 1`, and `0` when there is none. -/
def modInv (a : Int) (m : Nat) : Int :=
  (((List.range m).find? fun b : Nat => a * b % m = 1).getD 0 : Nat)

/-- `a * b % m = 1` says that `a * b` is `1` in `ZMod m`. -/
theorem mul_emod_eq_one_iff {m : Nat} (hm : 1 < m) (a b : Int) :
    a * b % m = 1 ↔ ((a * b : Int) : ZMod m) = 1 := by
  rw [show (1 : ZMod m) = ((1 : Int) : ZMod m) from Int.cast_one.symm,
    ZMod.intCast_eq_intCast_iff', show (1 : Int) % m = 1 from Int.emod_eq_of_lt (by norm_num) (by omega)]

/-- Modulo a prime, `modInv` is the inverse in `ZMod`, also of `0`. -/
theorem modInv_cast {m : Nat} (hm : m.Prime) (a : Int) :
    ((modInv a m : Int) : ZMod m) = (a : ZMod m)⁻¹ := by
  haveI := Fact.mk hm
  have h1 := hm.one_lt
  have hsearch : modInv a m = (((List.range m).find? fun b : Nat => a * b % m = 1).getD 0 : Nat) :=
    rfl
  by_cases ha : (a : ZMod m) = 0
  · -- `a` is `0` modulo `m`: nothing in `[0, m)` inverts it
    have hnone : (List.range m).find? (fun b : Nat => a * b % m = 1) = none := by
      rw [List.find?_eq_none]
      intro b _
      simp [mul_emod_eq_one_iff h1, ha]
    rw [hsearch, hnone, ha, inv_zero]
    simp
  · obtain ⟨b, hb⟩ : ∃ b, (List.range m).find? (fun b : Nat => a * b % m = 1) = some b := by
      apply Option.isSome_iff_exists.1
      rw [List.find?_isSome]
      refine ⟨(a : ZMod m)⁻¹.val, List.mem_range.2 (ZMod.val_lt _), ?_⟩
      simp [mul_emod_eq_one_iff h1, mul_inv_cancel₀ ha]
    have hinv := List.find?_some hb
    simp only [decide_eq_true_eq, mul_emod_eq_one_iff h1, Int.cast_mul, Int.cast_natCast] at hinv
    rw [hsearch, hb, Option.getD_some, Int.cast_natCast]
    exact (inv_eq_of_mul_eq_one_right hinv).symm

variable {P : Type} [AddCommGroup P] (C : EcGroup P)

namespace EcGroup

/-- Every point has an order dividing `n`. -/
theorem addOrderOf_dvd (Q : P) : (addOrderOf Q : Int) ∣ C.order :=
  addOrderOf_dvd_iff_zsmul_eq_zero.2 (C.order_zsmul Q)

/-- `a • Q` depends only on `a` modulo `n`. -/
theorem zsmul_congr {a b : Int} (h : (a : ZMod C.order) = b) (Q : P) : a • Q = b • Q := by
  rw [zsmul_eq_zsmul_iff_modEq]
  exact Int.ModEq.of_dvd (C.addOrderOf_dvd Q) ((ZMod.intCast_eq_intCast_iff _ _ _).1 h)

/-- Reducing the scalar modulo `n` does not move the point. -/
theorem emod_zsmul (a : Int) (Q : P) : (a % C.order) • Q = a • Q :=
  C.zsmul_congr (ZMod.intCast_mod a C.order) Q

theorem addOrderOf_G : addOrderOf C.G = C.order := by
  have hd : addOrderOf C.G ∣ C.order := Int.natCast_dvd_natCast.1 (C.addOrderOf_dvd C.G)
  rcases (Nat.dvd_prime C.order_prime).1 hd with h | h
  · exact absurd (AddMonoid.addOrderOf_eq_one_iff.1 h) C.G_ne_zero
  · exact h

/-- A multiple of `G` by a non-zero residue is not the point at infinity. -/
theorem zsmul_G_ne_zero {a : Int} (ha : (a : ZMod C.order) ≠ 0) : a • C.G ≠ 0 := by
  intro h
  apply ha
  rw [ZMod.intCast_zmod_eq_zero_iff_dvd, ← C.addOrderOf_G]
  exact addOrderOf_dvd_iff_zsmul_eq_zero.2 h

/-- A residue in `[0, n)` is `0` in `ZMod n` only when it is `0`. -/
theorem cast_eq_zero_iff {a : Int} (h0 : 0 ≤ a) (hn : a < C.order) :
    (a : ZMod C.order) = 0 ↔ a = 0 := by
  rw [ZMod.intCast_zmod_eq_zero_iff_dvd]
  constructor
  · intro hd
    exact Int.eq_zero_of_dvd_of_nonneg_of_lt h0 hn hd
  · rintro rfl
    exact dvd_zero _

/-- A scalar in `(0, n)` is a non-zero residue. -/
theorem cast_ne_zero_of_mem {q : Int} (hq : 0 < q ∧ q < C.order) : (q : ZMod C.order) ≠ 0 := by
  rw [Ne, C.cast_eq_zero_iff hq.1.le hq.2]
  omega

/-- A scalar that does not send `Q` to the point at infinity is a non-zero
residue. -/
theorem cast_ne_zero_of_zsmul_ne_zero {a : Int} {Q : P} (h : a • Q ≠ 0) :
    (a : ZMod C.order) ≠ 0 :=
  fun h0 => h (by rw [C.zsmul_congr (b := 0) (by rw [h0, Int.cast_zero]), zero_smul])

/-- `(n - k) · Q` is the opposite of `k · Q`. -/
theorem order_sub_zsmul (k : Int) (Q : P) : ((C.order : Int) - k) • Q = -(k • Q) := by
  rw [sub_smul, C.order_zsmul, zero_sub]

/-- A finite point is rebuilt from its x-coordinate and the parity of its
y-coordinate. -/
theorem point_xToY {Q : P} (hQ : Q ≠ 0) {b : Nat} (hb : C.y Q % 2 = b) :
    C.point (C.x Q) (C.xToY (C.x Q) b) = Q := by
  rw [← hb, C.xToY_xy Q hQ, C.point_xy]

/-- A reduced scalar is a residue in `[0, n)`. -/
theorem emod_nonneg_lt (a : Int) : 0 ≤ a % C.order ∧ a % C.order < C.order := by
  have := C.order_prime.pos
  exact ⟨Int.emod_nonneg _ (by omega), Int.emod_lt_of_pos _ (by omega)⟩

/-- `a · modInv(b, n) mod n`, the residue of `a b⁻¹`, is in `(0, n)` when `a`
and `b` are non-zero residues. -/
theorem mul_modInv_emod_mem {a b : Int} (ha : (a : ZMod C.order) ≠ 0) (hb : (b : ZMod C.order) ≠ 0) :
    0 < a * modInv b C.order % C.order ∧ a * modInv b C.order % C.order < C.order := by
  haveI := Fact.mk C.order_prime
  obtain ⟨h0, hn⟩ := C.emod_nonneg_lt (a * modInv b C.order)
  have hne : ((a * modInv b C.order % C.order : Int) : ZMod C.order) ≠ 0 := by
    push_cast [ZMod.intCast_mod, modInv_cast C.order_prime]
    exact mul_ne_zero ha (inv_ne_zero hb)
  rw [Ne, C.cast_eq_zero_iff h0 hn] at hne
  exact ⟨lt_of_le_of_ne h0 (Ne.symm hne), hn⟩

end EcGroup

/-- Modelled from the spec: the curve together with the helpers of `ecutils`
that the scripts call, none of which is among the sources. -/
structure EcEnv (P : Type) [AddCommGroup P] where
  /-- The curve. -/
  ec : EcGroup P
  /-- `hash_to_int`. -/
  hashToInt : Bytes → Int
  /-- `decode_prv`. -/
  decodePrv : Int → Except PyExc Int
  /-- `decode_pub`. -/
  decodePub : P → Except PyExc P
  /-- `int_to_bytes(x, size)`. -/
  intToBytes : Int → Nat → Bytes
  hashToInt_nonneg : ∀ b, 0 ≤ hashToInt b
  decodePrv_of_mem : ∀ q : Int, 0 < q → q < ec.order → decodePrv q = .ok q
  decodePub_of_ne_zero : ∀ Q, Q ≠ 0 → decodePub Q = .ok Q

/-! ## A lawful instance -/

/-- The x-coordinate of `ZMod 7`: `x` for `±x`, `x ≤ 3`. -/
def modSevenX (Q : ZMod 7) : Nat :=
  if Q.val ≤ 3 then Q.val else 7 - Q.val

/-- The y-coordinate of `ZMod 7`: even for `x`, odd for `-x`, `x ≤ 3`. -/
def modSevenYCoord (Q : ZMod 7) : Nat :=
  if Q.val ≤ 3 then 2 else 1

/-- `ZMod 7` with generator `1`, coordinates `modSevenX` and `modSevenYCoord`,
and field size 11: a lawful curve in the group model. -/
def modSevenGroup : EcGroup (ZMod 7) where
  order := 7
  prime := 11
  G := 1
  x := modSevenX
  y := modSevenYCoord
  point x y := if y % 2 = 0 then (x : ZMod 7) else -(x : ZMod 7)
  xToY _ b := if b = 0 then 2 else 1
  order_prime := by decide
  order_zsmul := by decide
  G_ne_zero := by decide
  point_xy := by decide
  x_neg := by decide
  y_neg := by decide
  xToY_xy := by decide
  x_pos := by decide
  x_lt_prime := by decide

/-- The group of `modSevenGroup` with `ecutils` helpers that read bytes
big-endian and accept every scalar in `(0, 7)` and every finite point. -/
def modSevenEnv : EcEnv (ZMod 7) where
  ec := modSevenGroup
  hashToInt b := fromBytesBE b
  decodePrv q := if 0 < q ∧ q < 7 then .ok q else .error (.btclibValueError "not a private key")
  decodePub Q := if Q = 0 then .error (.btclibValueError "not a point") else .ok Q
  intToBytes x w := toBytesBE w x.toNat
  hashToInt_nonneg b := Int.natCast_nonneg (fromBytesBE b)
  decodePrv_of_mem _ h0 hn := if_pos ⟨h0, hn⟩
  decodePub_of_ne_zero _ hQ := if_neg hQ

/-- A one-byte hasher whose digest is the sum of the bytes of its input modulo
256, so that both its leading bits, read by `rfc6979`, and its value, read by
`hash_to_int`, range over small numbers on `modSevenEnv`. -/
def sumByteHasher : Hasher where
  digest b := [byteOf (b.map Fin.val).sum]
  digestSize := 1
  blockSize := 64
  length_digest _ := rfl
  digestSize_pos := by decide

end Scripts
end Btclib
