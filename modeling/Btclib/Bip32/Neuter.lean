import Btclib.Bip32.Derive

/-!
# Neutered derivation

`_xpub_from_xprv` turns a private extended key into the public key of the
same node: the version moves to the same place of the public registry and the
key bytes become `bytes_from_point(q·G)`; every other field stays.

**Algorithm.** A normal (non-hardened) private step hashes
`bytes_from_point(q·G) ‖ ser32(i)` and adds `IL` to `q`; the public step
hashes the neutered key bytes, which are the same bytes, and adds `IL·G` to
`q·G`. Since `mult` is a homomorphism from `ℤ/n`, the two children are again
a private key and its neutering. A private child scalar of `0` is the point at
infinity on the public side: both runs raise.

**Results.**
* `xpubFromXprvData_of_valid`: a valid private key neuters to a valid public key.
* `referenceCkd_neuter`: one normal reference step commutes with neutering.
* `neuter_referenceRun`: so does every run of normal steps.
* `xpubFromXprvData_deriveData_comm`: neutering commutes with normal
  derivation, and derivation from a neutered key fails on a hardened index.
* `networkFromXkeyversion_xpubFromXprvData`: neutering keeps the network of the
  version, when mainnet and testnet share no public tag.
-/

namespace Btclib
namespace Bip32

variable {P : Type} [AddCommGroup P] (E : Env P)

/-- `_xpub_from_xprv`. -/
def xpubFromXprvData (xprv : BIP32Key) : Except PyExc BIP32KeyData := do
  let xkey ← xprv.decode E
  let k0 ← getItem xkey.key 0
  if k0 ≠ 0 then
    let s ← xkey.b58encode E true
    throw (.btclibValueError ("not a private key: " ++ asciiString s))
  let i ← listIndex xkey.version E.xprvVersionsAll
  let version ← getItem E.xpubVersionsAll i
  let q := fromBytesBE (xkey.key.drop 1)
  let key ← E.ec.bytesFromPoint (E.ec.mult q)
  pure { xkey with version := version, key := key }

/-- `xpub_from_xprv`. -/
def xpubFromXprv (xprv : BIP32Key) : Except PyExc Bytes := do
  let xkey ← xpubFromXprvData E xprv
  xkey.b58encode E true

/-! ## Neutering one key -/

/-- A private version has a public version at the same place of the registries. -/
theorem neuterVersion_ok {v : Bytes} (hv : v ∈ E.xprvVersionsAll) :
    ∃ v', (listIndex v E.xprvVersionsAll >>= getItem E.xpubVersionsAll) = .ok v' ∧
      v' ∈ E.xpubVersionsAll := by
  obtain ⟨i, hi, he, -⟩ := listIndex_eq_ok_of_mem _ hv
  have hi' : i < E.xpubVersionsAll.length := by
    rwa [Env.xpubVersionsAll, ← length_xprvVersionsAll]
  exact ⟨_, by rw [he, ok_bind, getItem_of_lt hi'], List.get_mem _ _ _⟩

/-- Neutering a record with private key bytes `0 ‖ ser256(q)`. -/
theorem xpubFromXprvData_eq {r : BIP32KeyData} {q : Nat} (hkey : r.key = 0 :: toBytesBE 32 q)
    (hq : q < 256 ^ 32) :
    xpubFromXprvData E (.data r) =
      (listIndex r.version E.xprvVersionsAll >>= getItem E.xpubVersionsAll) >>= fun v =>
        E.ec.bytesFromPoint (E.ec.mult q) >>= fun key => .ok { r with version := v, key := key } := by
  simp [xpubFromXprvData, hkey, fromBytesBE_toBytesBE_of_lt hq, bind_assoc]

/-- A valid private key neuters to a valid public key with the encoding of `q·G`. -/
theorem xpubFromXprvData_of_valid {r : BIP32KeyData} (hr : r.Valid E) (h0 : r.key.head? = some 0) :
    ∃ v pBytes, (listIndex r.version E.xprvVersionsAll >>= getItem E.xpubVersionsAll) = .ok v ∧
      E.ec.bytesFromPoint (E.ec.mult (fromBytesBE r.key.tail)) = .ok pBytes ∧
      xpubFromXprvData E (.data r) = .ok { r with version := v, key := pBytes } ∧
      ({ r with version := v, key := pBytes } : BIP32KeyData).Valid E := by
  obtain ⟨hv, -, hq0, hqn⟩ := prvKeyOk_of_head E hr h0
  have hqb : fromBytesBE r.key.tail < 256 ^ 32 := E.ec.lt_of_lt_n hqn
  obtain ⟨v, hnv, hvm⟩ := neuterVersion_ok E hv
  have hne : E.ec.mult (fromBytesBE r.key.tail) ≠ 0 := by
    rw [Ne, E.ec.mult_eq_zero_iff, Nat.mod_eq_of_lt hqn]
    omega
  obtain ⟨pBytes, hp, hsec, -⟩ := E.ec.bytesFromPoint_ok _ hne
  refine ⟨v, pBytes, hnv, hp, ?_, { hr with version_length := ?_, key_length := hsec.1, key_ok := ?_ }⟩
  · rw [xpubFromXprvData_eq E (key_eq_cons_of_length hr.key_length h0) hqb, hnv, ok_bind, hp, ok_bind]
  · exact E.networks.length_xpub v hvm
  · exact .inr ⟨fun hx => E.not_mem_xpub_of_mem_xprv hx hvm, hvm, hsec⟩

/-! ## Neutering commutes with normal steps -/

/-- A normal private reference step, with the encoding `pBytes` of the parent's
public point: the HMAC input and the fingerprint both come from `pBytes`. -/
theorem referenceCkd_normal {r : BIP32KeyData} (h0 : r.key.head? = some 0) {pBytes : Bytes}
    (hp : E.ec.bytesFromPoint (E.ec.mult (fromBytesBE r.key.tail)) = .ok pBytes) {i : Nat}
    (hi : i < 2 ^ 31) :
    let I := E.hashes.hmacSha512 r.chainCode (pBytes ++ toBytesBE 4 i)
    referenceCkd E r i = .ok (child r i ((E.hashes.hash160 pBytes).take 4) I
      (0 :: toBytesBE 32 ((fromBytesBE r.key.tail + fromBytesBE (I.take 32)) % E.ec.n))) := by
  have hh : ¬ 2147483648 ≤ i := by omega
  simp [referenceCkd, h0, referenceCkdPrv, hp, hh, child]

/-- One normal reference step commutes with neutering: the private child's
scalar `q` gives the public child's key `bytes_from_point(q·G)`. -/
theorem referenceCkd_neuter {r s : BIP32KeyData} (hr : r.Valid E) (h0 : r.key.head? = some 0)
    (hs : xpubFromXprvData E (.data r) = .ok s) {i : Nat} (hi : i < 2 ^ 31) :
    ∃ fp I q, fp.length = 4 ∧ I.length = 64 ∧ q < E.ec.n ∧
      referenceCkd E r i = .ok (child r i fp I (0 :: toBytesBE 32 q)) ∧
      referenceCkd E s i =
        (E.ec.bytesFromPoint (E.ec.mult q) >>= fun key => .ok (child s i fp I key)) := by
  obtain ⟨v, pBytes, -, hp, hs', -⟩ := xpubFromXprvData_of_valid E hr h0
  rw [hs, Except.ok.injEq] at hs'
  subst hs'
  obtain ⟨hsec, hdec⟩ := E.ec.bytesFromPoint_spec hp
  have hs0 : pBytes.head? ≠ some 0 := by rcases hsec.2.1 with h | h <;> simp [h]
  have hh : ¬ 2147483648 ≤ i := by omega
  refine ⟨_, _, _, length_fingerprint E _, E.hashes.length_hmacSha512 _ _, Nat.mod_lt _ E.ec.n_pos,
    referenceCkd_normal E h0 hp hi, ?_⟩
  simp [referenceCkd, hs0, referenceCkdPub, hh, hdec, child, E.ec.mult_mod, E.ec.mult_add]

/-- A normal reference step to a non-zero scalar: the private child is valid,
and its neutering is the public child of the neutered parent. -/
theorem neuter_child {r s : BIP32KeyData} (hr : r.Valid E) (h0 : r.key.head? = some 0)
    (hd : r.depth < 255) (hs : xpubFromXprvData E (.data r) = .ok s) {i : Nat} (hi : i < 2 ^ 31)
    {fp I : Bytes} (hfp : fp.length = 4) (hI : I.length = 64) {q : Nat} (hqn : q < E.ec.n)
    (hq0 : q ≠ 0) :
    ∃ key, E.ec.bytesFromPoint (E.ec.mult q) = .ok key ∧
      (child r i fp I (0 :: toBytesBE 32 q)).Valid E ∧
      xpubFromXprvData E (.data (child r i fp I (0 :: toBytesBE 32 q))) =
        .ok (child s i fp I key) := by
  have hqb : q < 256 ^ 32 := E.ec.lt_of_lt_n hqn
  have hval := E.ec.fromBytesBE_toBytesBE_scalar hqn
  have hne : E.ec.mult q ≠ 0 := by
    rw [Ne, E.ec.mult_eq_zero_iff, Nat.mod_eq_of_lt hqn]
    exact hq0
  obtain ⟨key, hkey, -⟩ := E.ec.bytesFromPoint_ok _ hne
  obtain ⟨v, pBytes, hnv, -, hs', -⟩ := xpubFromXprvData_of_valid E hr h0
  rw [hs, Except.ok.injEq] at hs'
  subst hs'
  refine ⟨key, hkey, valid_child E hr hd (by omega) hfp hI (by simp)
    (.inl ⟨(prvKeyOk_of_head E hr h0).1, rfl, by simp [child, hval]; omega,
      by simpa [child, hval] using hqn⟩), ?_⟩
  rw [xpubFromXprvData_eq E rfl hqb]
  simp only [child, hnv, hkey, ok_bind]

/-- Neutering commutes with every run of normal reference steps. -/
theorem neuter_referenceRun :
    ∀ (p : List Nat) {r s : BIP32KeyData}, r.Valid E → r.key.head? = some 0 →
      r.depth + p.length ≤ 255 → (∀ i ∈ p, i < 2 ^ 31) →
      xpubFromXprvData E (.data r) = .ok s →
      ResultRel Eq (p.foldlM (referenceCkd E) r >>= fun d => xpubFromXprvData E (.data d))
        (p.foldlM (referenceCkd E) s)
  | [], _, _, _, _, _, _, hs => by simp [hs]
  | i :: p, r, s, hr, h0, hd, hp, hs => by
      have hd' : r.depth + p.length ≤ 254 := by simp at hd; omega
      obtain ⟨fp, I, q, hfp, hI, hqn, hr1, hs1⟩ := referenceCkd_neuter E hr h0 hs (hp i (.head p))
      rw [List.foldlM_cons, List.foldlM_cons, hr1, ok_bind, hs1]
      by_cases hq0 : q = 0
      · -- the private child has scalar `0`, the public child is the point at infinity
        subst hq0
        obtain ⟨e, he⟩ := E.ec.raises_bytesFromPoint_zero
        refine ResultRel.of_raises (raises_referenceRun_of_zero_scalar E rfl ?_ p) ⟨e, by simp [he]⟩
        rw [xpubFromXprvData_eq E rfl (by simp)]
        exact raises_bind_of_forall fun v => ⟨e, by simp [he]⟩
      · obtain ⟨key, hkey, hr', hs'⟩ :=
          neuter_child E hr h0 (by omega) hs (hp i (.head p)) hfp hI hqn hq0
        rw [hkey, ok_bind, ok_bind]
        exact neuter_referenceRun p hr' rfl (by simp [child]; omega)
          (fun j hj => hp j (.tail i hj)) hs'

/-- Neutering commutes with normal derivation and blocks hardened derivation. -/
theorem xpubFromXprvData_deriveData_comm (k : BIP32KeyData) (hk : k.assertValid E = .ok ())
    (h0 : k.key.head? = some 0) :
    (∀ p : List Nat, (∀ i ∈ p, i < 2 ^ 31) → k.depth + p.length ≤ 255 →
      ResultRel Eq (deriveData E (.data k) p none >>= fun d => xpubFromXprvData E (.data d))
        (xpubFromXprvData E (.data k) >>= fun n => deriveData E (.data n) p none)) ∧
    ∀ p : List Nat, (∃ i ∈ p, 2 ^ 31 ≤ i) →
      Raises (xpubFromXprvData E (.data k) >>= fun n => deriveData E (.data n) p none) := by
  have hv := (BIP32KeyData.assertValid_eq_ok_iff E k).1 hk
  obtain ⟨v, pBytes, -, hp, hs, hsv⟩ := xpubFromXprvData_of_valid E hv h0
  have hs0 : pBytes.head? ≠ some 0 := by
    rcases (E.ec.bytesFromPoint_spec hp).1.2.1 with h | h <;> simp [h]
  simp only [hs, ok_bind]
  refine ⟨fun p hp31 hd => ?_, fun p hh => raises_deriveData_of_hardened E hsv hs0 hh none⟩
  have h32 : ∀ i ∈ p, i < 2 ^ 32 := fun i hi => by have := hp31 i hi; omega
  have hprv : ResultRel Eq (deriveData E (.data k) p none) (p.foldlM (referenceCkd E) k) := by
    simpa [forceVersion] using deriveData_resultRel E hv h32 hd none
  have hpub : ResultRel Eq (deriveData E (.data { k with version := v, key := pBytes }) p none)
      (p.foldlM (referenceCkd E) { k with version := v, key := pBytes }) := by
    simpa [forceVersion] using deriveData_resultRel E hsv h32 hd none
  exact ((hprv.bind fun a b hab => hab ▸ resultRel_eq_self _).trans_eq
    (neuter_referenceRun E p hv h0 hd hp31 hs)).trans_eq hpub.symm_eq

theorem xpubFromXprvData_deriveData_comm_at_masterKey :
    masterKey.assertValid modSevenEnv = .ok () ∧ masterKey.key.head? = some 0 ∧
      ResultRel Eq (deriveData modSevenEnv (.data masterKey) [1, 2] none >>= fun d =>
          xpubFromXprvData modSevenEnv (.data d))
        (xpubFromXprvData modSevenEnv (.data masterKey) >>= fun n =>
          deriveData modSevenEnv (.data n) [1, 2] none) :=
  ⟨by decide, by decide, (xpubFromXprvData_deriveData_comm modSevenEnv masterKey (by decide)
    (by decide)).1 [1, 2] (by decide) (by decide)⟩

/-! ## Neutering keeps the network -/

/-- What neutering returns has as version the public tag at the place of the
private one. -/
theorem xpubFromXprvData_version {k k' : BIP32KeyData} (h : xpubFromXprvData E (.data k) = .ok k') :
    (listIndex k.version E.xprvVersionsAll >>= getItem E.xpubVersionsAll) = .ok k'.version := by
  simp only [xpubFromXprvData, BIP32Key.decode_data, ok_bind] at h
  obtain ⟨k0, -, h⟩ := bind_eq_ok.1 h
  split_ifs at h with h0
  · obtain ⟨s, -, h⟩ := bind_eq_ok.1 h
    cases h
  · obtain ⟨⟨⟩, -, h⟩ := bind_eq_ok.1 h
    obtain ⟨i, hi, h⟩ := bind_eq_ok.1 h
    obtain ⟨v, hv, h⟩ := bind_eq_ok.1 h
    obtain ⟨key, -, h⟩ := bind_eq_ok.1 h
    cases h
    rw [hi, ok_bind, hv]

/-- The public tag at the place of a private one is mainnet's exactly when the
private tag is, as long as mainnet and testnet share no public tag. -/
theorem neuterVersion_mem_mainnet_iff
    (hd : ∀ w ∈ xpubversionsFromNetwork E.networks.mainnet,
      w ∉ xpubversionsFromNetwork E.networks.testnet)
    {v v' : Bytes} (h : (listIndex v E.xprvVersionsAll >>= getItem E.xpubVersionsAll) = .ok v') :
    v' ∈ xpubversionsFromNetwork E.networks.mainnet ↔
      v ∈ xprvversionsFromNetwork E.networks.mainnet := by
  obtain ⟨i, hi, hget⟩ := bind_eq_ok.1 h
  simp only [Env.xprvVersionsAll, Env.xpubVersionsAll, xprvVersionsAll, xpubVersionsAll,
    List.append_assoc] at hi hget
  by_cases hm : v ∈ xprvversionsFromNetwork E.networks.mainnet
  · obtain ⟨j, hj, he, -⟩ := listIndex_eq_ok_of_mem _ hm
    rw [listIndex_append_of_mem hm, he, Except.ok.injEq] at hi
    subst hi
    rw [getItem_append_left (by simpa [xpubversionsFromNetwork] using hj)] at hget
    exact iff_of_true (mem_of_getItem_eq_ok hget) hm
  · rcases hl : listIndex v (xprvversionsFromNetwork E.networks.testnet ++
        xprvversionsFromNetwork E.networks.testnet) with e | j
    · rw [listIndex_append_of_not_mem hm, hl] at hi
      cases hi
    rw [listIndex_append_of_not_mem hm, hl] at hi
    cases hi
    have hget' : getItem (xpubversionsFromNetwork E.networks.mainnet ++
        (xpubversionsFromNetwork E.networks.testnet ++ xpubversionsFromNetwork E.networks.testnet))
        ((xpubversionsFromNetwork E.networks.mainnet).length + j) = .ok v' := hget
    rw [getItem_append_right] at hget'
    have ht := mem_of_getItem_eq_ok hget'
    simp only [List.mem_append, or_self] at ht
    exact iff_of_false (fun h => hd _ h ht) hm

/-- Neutering keeps the network that `network_from_xkeyversion` reads off the
version, as long as mainnet and testnet share no public tag: the public tag
sits in the block of the private one. -/
theorem networkFromXkeyversion_xpubFromXprvData
    (hd : ∀ w ∈ xpubversionsFromNetwork E.networks.mainnet,
      w ∉ xpubversionsFromNetwork E.networks.testnet)
    {k k' : BIP32KeyData} (h : xpubFromXprvData E (.data k) = .ok k') :
    networkFromXkeyversion E.networks k'.version = networkFromXkeyversion E.networks k.version := by
  have hv := xpubFromXprvData_version E h
  obtain ⟨i, hi, hget⟩ := bind_eq_ok.1 hv
  have hmem : k.version ∈ E.xprvVersionsAll := by
    by_contra hn
    rw [listIndex_of_not_mem hn] at hi
    cases hi
  rw [networkFromXkeyversion_of_mem_xprv _ hmem,
    networkFromXkeyversion_of_mem_xpub _ (mem_of_getItem_eq_ok hget),
    if_congr (neuterVersion_mem_mainnet_iff E hd hv) rfl rfl]

end Bip32
end Btclib
