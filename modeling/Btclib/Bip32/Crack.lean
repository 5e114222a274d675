import Btclib.Bip32.Neuter

/-!
# Recovering a parent private key

`crack_prv_key` takes a parent's extended public key and one of its normal
children's extended private key. After checking that the two keys are of the
right kinds and that the child's depth and fingerprint point at the parent, it
recomputes the child's HMAC from the parent's public data and subtracts its
left half from the child's scalar modulo `n`.

**Results.**
* `parentScalar_eq`: subtracting the offset undoes the child step's addition.
* `crackPrvKey_recovers_parent`: from the neutered parent and the Base58 text of
  a normal child, `crack_prv_key` returns the parent's Base58 text.
-/

namespace Btclib
namespace Bip32

variable {P : Type} [AddCommGroup P] (E : Env P)

/-- `crack_prv_key`. -/
def crackPrvKey (parentXpub childXprv : BIP32Key) : Except PyExc Bytes := do
  let p ← parentXpub.decode E
  let p0 ← getItem p.key 0
  if p0 ∉ ([2, 3] : List Byte) then
    let s ← p.b58encode E true
    throw (.btclibValueError ("extended parent key is not a public key: " ++ asciiString s))
  let c ← childXprv.decode E
  let c0 ← getItem c.key 0
  if c0 ≠ 0 then
    let s ← c.b58encode E true
    throw (.btclibValueError ("extended child key is not a private key: " ++ asciiString s))
  if c.depth ≠ p.depth + 1 then
    throw (.btclibValueError "not a parent\x27s child: wrong depths")
  if c.parentFingerprint ≠ (E.hashes.hash160 p.key).take 4 then
    throw (.btclibValueError "not a parent\x27s child: wrong parent fingerprint")
  if c.isHardened then
    throw (.btclibValueError "hardened child derivation")
  let p := { p with version := c.version }
  let i ← intToBytes c.index 4 .big
  let hmac := E.hashes.hmacSha512 p.chainCode (p.key ++ i)
  let childQ := fromBytesBE (c.key.drop 1)
  let offset := fromBytesBE (hmac.take 32)
  let parentQ := ((childQ : Int) - offset) % E.ec.n
  let key ← intToBytes parentQ 32 .big
  let p := { p with key := 0 :: key }
  p.b58encode E true

/-- Subtracting the offset modulo `n` undoes the child step's addition. -/
theorem parentScalar_eq {q offset n : Nat} (hq : q < n) :
    ((((q + offset) % n : Nat) : Int) - offset) % n = q := by
  have hmod : ((((q + offset) % n : Nat) : Int) - offset) ≡ q [ZMOD n] := by
    have h : (((q + offset) % n : Nat) : Int) ≡ q + offset [ZMOD n] := by
      rw [Int.natCast_mod]
      exact Int.mod_modEq _ _
    simpa using h.sub_right (offset : Int)
  rw [hmod, Int.emod_eq_of_lt (by omega) (by omega)]

/-- The Base58 text of a valid key decodes back to it. -/
theorem decode_text_b58encode {k : BIP32KeyData} (hk : k.Valid E) :
    ∃ s, k.b58encode E true = .ok s ∧ (BIP32Key.text s).decode E = .ok k := by
  have h := BIP32KeyData.b58decode_b58encode E hk
  obtain ⟨s, hs⟩ : ∃ s, k.b58encode E true = .ok s := by
    rcases hs : k.b58encode E true with e | s
    · simp [hs] at h
    · exact ⟨s, rfl⟩
  exact ⟨s, hs, by simpa [hs] using h⟩

/-- The text of a normal child of a private key decodes to its reference child. -/
theorem decode_derive_normal {k : BIP32KeyData} (hv : k.Valid E) (h0 : k.key.head? = some 0)
    (hd : k.depth < 255) {pBytes : Bytes}
    (hp : E.ec.bytesFromPoint (E.ec.mult (fromBytesBE k.key.tail)) = .ok pBytes) {i : Nat}
    (hi : i < 2 ^ 31) {c : Bytes} (hc : derive E (.data k) [i] none = .ok c) :
    ∃ r, referenceCkd E k i = .ok r ∧ (BIP32Key.text c).decode E = .ok r := by
  have hchild := (derive_resultRel E hv (by simp; omega) (by simp; omega) none).eq_ok hc
  simp only [List.foldlM_cons, List.foldlM_nil, referenceCkd_normal E h0 hp hi, ok_bind, bind_ok,
    finish, forceVersion, pure_eq_ok] at hchild
  have hcv := not_not.1 fun h => raises_ok _ (hchild ▸ (BIP32KeyData.raises_b58encode_iff E _).2 h)
  exact ⟨_, referenceCkd_normal E h0 hp hi,
    by simpa [hchild] using BIP32KeyData.b58decode_b58encode E hcv⟩

/-- `crack_prv_key` recovers the parent exactly from its neutered key and the
Base58 text of a normal child. -/
theorem crackPrvKey_recovers_parent (k : BIP32KeyData) (i : Nat) (hk : k.assertValid E = .ok ())
    (h0 : k.key.head? = some 0) (hd : k.depth < 255) (hi : i < 2 ^ 31)
    (hc : ∃ c, derive E (.data k) [i] none = .ok c) :
    (xpubFromXprv E (.data k) >>= fun pub => derive E (.data k) [i] none >>= fun c =>
      crackPrvKey E (.text pub) (.text c)) = k.b58encode E true := by
  have hv := (BIP32KeyData.assertValid_eq_ok_iff E k).1 hk
  obtain ⟨-, -, -, hqn⟩ := prvKeyOk_of_head E hv h0
  have hkey := key_eq_cons_of_length hv.key_length h0
  -- the neutered parent and its text
  obtain ⟨v, pBytes, -, hp, hs, hsv⟩ := xpubFromXprvData_of_valid E hv h0
  obtain ⟨pub, hpub, hdpub⟩ := decode_text_b58encode E hsv
  have hpre : pBytes.head? = some 2 ∨ pBytes.head? = some 3 := (E.ec.bytesFromPoint_spec hp).1.2.1
  have hxpub : xpubFromXprv E (.data k) = .ok pub := by simp [xpubFromXprv, hs, hpub]
  -- the child and its text
  obtain ⟨c, hc⟩ := hc
  obtain ⟨r, hr, hdc⟩ := decode_derive_normal E hv h0 hd hp hi hc
  rw [referenceCkd_normal E h0 hp hi, Except.ok.injEq] at hr
  obtain ⟨I, hI⟩ : ∃ I, E.hashes.hmacSha512 k.chainCode (pBytes ++ toBytesBE 4 i) = I := ⟨_, rfl⟩
  obtain ⟨q, hq⟩ : ∃ q, (fromBytesBE k.key.tail + fromBytesBE (I.take 32)) % E.ec.n = q := ⟨_, rfl⟩
  rw [hI, hq] at hr
  -- the checks of crack_prv_key pass, and the scalar is recovered
  obtain ⟨c0, hget, hc0⟩ : ∃ c0, getItem pBytes 0 = .ok c0 ∧ c0 ∈ ([2, 3] : List Byte) := by
    rcases pBytes with _ | ⟨c0, t⟩
    · simp at hpre
    · exact ⟨c0, rfl, by simpa using hpre⟩
  have hqb : q < 256 ^ 32 := hq ▸ E.ec.lt_of_lt_n (Nat.mod_lt _ E.ec.n_pos)
  have hparent : ((q : Int) - fromBytesBE (I.take 32)) % E.ec.n = fromBytesBE k.key.tail :=
    hq ▸ parentScalar_eq hqn
  have hh : ¬ (0x80000000 : Int) ≤ i := by omega
  rw [hxpub, ok_bind, hc, ok_bind]
  simp only [crackPrvKey, hdpub, hdc, ← hr, ok_bind, hget, hc0, not_true_eq_false, if_false, child,
    getItem_cons_zero, ne_eq, BIP32KeyData.isHardened, hh, decide_False, Bool.false_eq_true,
    intToBytes_natCast_big (show i < 256 ^ 4 by omega), hI, List.drop_one, List.tail_cons,
    fromBytesBE_toBytesBE_of_lt hqb, hparent, intToBytes_natCast_big (E.ec.lt_of_lt_n hqn), ← hkey,
    not_false_eq_true, if_true]
  rfl

theorem crackPrvKey_recovers_parent_at_masterKey :
    (xpubFromXprv modSevenEnv (.data masterKey) >>= fun pub =>
      derive modSevenEnv (.data masterKey) [1] none >>= fun c =>
        crackPrvKey modSevenEnv (.text pub) (.text c)) = masterKey.b58encode modSevenEnv true :=
  crackPrvKey_recovers_parent modSevenEnv masterKey 1 (by decide) (by decide) (by decide)
    (by decide) ⟨_, rfl⟩

end Bip32
end Btclib
