import Btclib.Bip32.Ckd

/-!
# Multi-level derivation

`_derive` decodes its argument if it is text, rejects a path that would end
deeper than 255, builds the working state (caching the scalar of a private
key, or the decoded point of a public one, and validating the record as
`_ExtendedBIP32KeyData(...)` does), runs `__ckd` once per index, and
optionally forces a version of the same registry onto the result. `derive`
returns the Base58Check text of the result, validating it on the way.

The path argument is the index list that `indexes_from_bip32_path` returns;
the path parser (`bip32_path`) is not part of the sources.

**Results.**
* `deriveData_eq_run`: on a valid key within the depth bound, `_derive` is the
  `ckd` loop from a state that simulates the key.
* `deriveData_loop_coherent`: after every call of `__ckd` in that loop the
  cache agrees with the key, the depth has grown by one per call, and the key
  kind is the start's.
* `deriveData_refines_referenceCkd`: `_derive` fails exactly when the
  left fold of the reference step fails, and otherwise returns its record.
* `deriveData_append`: deriving along `p`, then along `q` from the record
  returned, is deriving along `p ++ q` once that record passes `assert_valid`;
  the second `_derive` raises on an invalid one.
-/

namespace Btclib
namespace Bip32

/-- `BIP32Key = Union[BIP32KeyData, String]`: a key record, or its Base58 text. -/
inductive BIP32Key where
  | data (k : BIP32KeyData)
  | text (s : Bytes)

variable {P : Type} [AddCommGroup P] (E : Env P)

/-- The `isinstance(xkey, BIP32KeyData)` test that opens `_derive`,
`_xpub_from_xprv` and `crack_prv_key`: a record is used as it is, text is
decoded and validated. -/
def BIP32Key.decode : BIP32Key → Except PyExc BIP32KeyData
  | .data k => pure k
  | .text s => BIP32KeyData.b58decode E s true

@[simp] theorem BIP32Key.decode_data (k : BIP32KeyData) : (BIP32Key.data k).decode E = .ok k :=
  rfl

/-- Modelled from the spec: `bytes_from_octets(o, out_size)` of `btclib.utils`
is not in the sources; on bytes it returns them when they have `out_size`
bytes and raises `BTClibValueError` otherwise. -/
def bytesFromOctets (o : Bytes) (outSize : Nat) : Except PyExc Bytes :=
  if o.length = outSize then .ok o
  else .error (.btclibValueError ("invalid size: " ++ toString o.length ++ " bytes instead of " ++
    toString outSize))

/-- The `if forced_version:` block of `_derive`; an empty `bytes` is falsy. -/
def forceVersion (xkey : BIP32KeyData) : Option Bytes → Except PyExc BIP32KeyData
  | some forcedVersion =>
      if forcedVersion ≠ [] then do
        let allowedVersions :=
          if xkey.version ∈ E.xprvVersionsAll then E.xprvVersionsAll else E.xpubVersionsAll
        let fversion ← bytesFromOctets forcedVersion 4
        if fversion ∉ allowedVersions then
          throw (.btclibValueError ("invalid version forced on the extended key" ++
            hexString fversion))
        pure { xkey with version := fversion }
      else pure xkey
  | none => pure xkey

@[simp] theorem forceVersion_none (xkey : BIP32KeyData) : forceVersion E xkey none = pure xkey :=
  rfl

/-- `_derive`. -/
def deriveData (xkey : BIP32Key) (indexes : List Nat) (forcedVersion : Option Bytes) :
    Except PyExc BIP32KeyData := do
  let xkey ← xkey.decode E
  let finalDepth := xkey.depth + indexes.length
  if 255 < finalDepth then
    throw (.btclibValueError ("final depth greater than 255: " ++ toString finalDepth))
  let k0 ← getItem xkey.key 0
  let isPrv := k0 = 0
  let q := if isPrv then fromBytesBE (xkey.key.drop 1) else 0
  let Q ← if isPrv then pure 0 else E.ec.pointFromOctets xkey.key
  -- `_ExtendedBIP32KeyData(...)` runs the inherited `__post_init__`, with
  -- `check_validity=True`, on the record it builds from `xkey`'s fields
  xkey.assertValid E
  let w ← indexes.foldlM (ckd E) { toBIP32KeyData := xkey, q := q, Q := Q }
  forceVersion E w.toBIP32KeyData forcedVersion

/-- `derive`: the Base58Check text of `_derive`'s result. -/
def derive (xkey : BIP32Key) (derPath : List Nat) (forcedVersion : Option Bytes) :
    Except PyExc Bytes := do
  let xkey ← deriveData E xkey derPath forcedVersion
  xkey.b58encode E true

/-! ## The loop of `_derive` -/

/-- A 33-byte key is its first byte followed by the 32-byte encoding of the rest. -/
theorem key_eq_cons_of_length {key : Bytes} {c : Byte} (hl : key.length = 33)
    (hc : key.head? = some c) : key = c :: toBytesBE 32 (fromBytesBE key.tail) := by
  obtain ⟨c', t, rfl⟩ := List.exists_cons_of_ne_nil (show key ≠ [] from fun h => by simp [h] at hl)
  simp only [List.head?_cons, Option.some.injEq] at hc
  simp only [List.length_cons] at hl
  simp [hc, toBytesBE_eq_of_fromBytesBE (show t.length = 32 by omega) rfl]

/-- On a valid key within the depth bound, `_derive` is the `ckd` loop from a
state that simulates the key. -/
theorem deriveData_eq_run {k : BIP32KeyData} (hk : k.Valid E) {p : List Nat}
    (hd : k.depth + p.length ≤ 255) (fv : Option Bytes) :
    ∃ w, Simulates E w k ∧ (w.key.head? = some 0 ↔ k.key.head? = some 0) ∧
      deriveData E (.data k) p fv =
        p.foldlM (ckd E) w >>= fun w => forceVersion E w.toBIP32KeyData fv := by
  have h0 : getItem k.key 0 = .ok (k.key.headD 0) := getItem_zero_of_length (by
    rw [hk.key_length]; omega)
  have hnd : ¬ (255 < k.depth + p.length) := by omega
  have hv := (BIP32KeyData.assertValid_eq_ok_iff E k).2 hk
  rcases hk.key_ok with ⟨-, hprv, -, hq⟩ | ⟨-, -, hsec⟩
  · refine ⟨{ toBIP32KeyData := k, q := fromBytesBE k.key.tail, Q := 0 }, ⟨?_, rfl⟩, Iff.rfl, ?_⟩
    · exact coherent_prv E (key_eq_cons_of_length hk.key_length hprv) hq rfl
    · simp [deriveData, hnd, h0, hprv, List.drop_one, hv]
  · obtain ⟨Q, hQ, hb⟩ := E.ec.pointFromOctets_ok k.key hsec
    refine ⟨{ toBIP32KeyData := k, q := 0, Q := Q }, ⟨coherent_pub E rfl hb, rfl⟩, Iff.rfl, ?_⟩
    rcases hsec.2.1 with h | h <;> simp [deriveData, hnd, h0, h, hQ, hv]

/-- Every run of `ckd` that returns, from a coherent state, leaves a coherent
state one level deeper per index, with a key of the start's kind. -/
theorem ckdRun_eq_ok : ∀ {p : List Nat} {w w' : ExtendedBIP32KeyData P},
    p.foldlM (ckd E) w = .ok w' → Coherent E w →
      Coherent E w' ∧ w'.depth = w.depth + p.length ∧
        (w'.key.head? = some 0 ↔ w.key.head? = some 0)
  | [], w, w', h, hc => by
      cases h
      exact ⟨hc, by simp, Iff.rfl⟩
  | i :: p, w, w', h, _ => by
      obtain ⟨w1, h1, hrun⟩ := bind_eq_ok.1 h
      obtain ⟨hd1, -, hc1, hk1⟩ := ckd_eq_ok E h1
      obtain ⟨hc, hd, hk⟩ := ckdRun_eq_ok hrun hc1
      exact ⟨hc, by rw [hd, hd1, List.length_cons]; push_cast; ring, hk.trans hk1⟩

/-- Throughout `_derive`'s loop from a valid key, after every call of `__ckd`,
the cache of the working state agrees with its key, the state is one level
deeper per call, and its key is of the start's kind. -/
theorem deriveData_loop_coherent (k : BIP32KeyData) (p : List Nat) (fv : Option Bytes)
    (hk : k.assertValid E = .ok ()) (hd : k.depth + p.length ≤ 255) :
    ∃ w₀ : ExtendedBIP32KeyData P, w₀.toBIP32KeyData = k ∧
      deriveData E (.data k) p fv =
        (p.foldlM (ckd E) w₀ >>= fun w => forceVersion E w.toBIP32KeyData fv) ∧
      ∀ j ≤ p.length, ∀ w, (p.take j).foldlM (ckd E) w₀ = .ok w →
        Coherent E w ∧ w.depth = k.depth + j ∧ (w.key.head? = some 0 ↔ k.key.head? = some 0) := by
  obtain ⟨w₀, ⟨hc, rfl⟩, -, heq⟩ :=
    deriveData_eq_run E ((BIP32KeyData.assertValid_eq_ok_iff E k).1 hk) hd fv
  refine ⟨w₀, rfl, heq, fun j hj w hw => ?_⟩
  obtain ⟨hcw, hdw, hkw⟩ := ckdRun_eq_ok E hw hc
  exact ⟨hcw, by rw [hdw, List.length_take, Nat.min_eq_left hj], hkw⟩

theorem deriveData_loop_coherent_at_masterKey :
    masterKey.assertValid modSevenEnv = .ok () ∧ masterKey.depth + [0x80000000, 1].length ≤ 255 ∧
      ∃ w₀ : ExtendedBIP32KeyData (ZMod 7), w₀.toBIP32KeyData = masterKey ∧
        deriveData modSevenEnv (.data masterKey) [0x80000000, 1] none =
          ([0x80000000, 1].foldlM (ckd modSevenEnv) w₀ >>= fun w =>
            forceVersion modSevenEnv w.toBIP32KeyData none) ∧
        ∀ j ≤ [0x80000000, 1].length, ∀ w, ([0x80000000, 1].take j).foldlM (ckd modSevenEnv) w₀ = .ok w →
          Coherent modSevenEnv w ∧ w.depth = masterKey.depth + j ∧
            (w.key.head? = some 0 ↔ masterKey.key.head? = some 0) :=
  ⟨by decide, by decide,
    deriveData_loop_coherent modSevenEnv masterKey [0x80000000, 1] none (by decide) (by decide)⟩

/-- From the record of a coherent state, `_derive` validates that record and
rebuilds the state: the scalar it reads from a private key's bytes, or the
point it decodes from a public key's, is the cached one. -/
theorem deriveData_of_coherent {w : ExtendedBIP32KeyData P} (hc : Coherent E w) {p : List Nat}
    (hd : w.depth + p.length ≤ 255) (fv : Option Bytes) :
    deriveData E (.data w.toBIP32KeyData) p fv =
      (w.toBIP32KeyData.assertValid E >>= fun _ =>
        p.foldlM (ckd E) w >>= fun w => forceVersion E w.toBIP32KeyData fv) := by
  obtain ⟨k, q, Q⟩ := w
  have hnd : ¬ (255 < k.depth + p.length) := by simpa using hd
  unfold Coherent at hc
  split_ifs at hc with h0
  · obtain ⟨hkey, hq, rfl⟩ := hc
    simp only at hkey hq
    simp [deriveData, hnd, hkey, E.ec.fromBytesBE_toBytesBE_scalar hq]
  · obtain ⟨hp, rfl, hb⟩ := hc
    simp only at hp hb
    have hdec := (E.ec.bytesFromPoint_spec hb).2
    obtain ⟨c, t, hkey⟩ := List.exists_cons_of_ne_nil (show k.key ≠ [] from fun h => by simp [h] at hp)
    rw [hkey] at hdec hp
    rcases hp with h | h <;> simp at h <;> subst h <;> simp [deriveData, hnd, hkey, hdec]

/-- Multi-level derivation composes: from a valid key, within the depth bound,
deriving along `p` and then along `q` from the record returned (with any
forced version) is deriving along `p ++ q`, once that record passes
`assert_valid`. The one-pass loop keeps its cache from `p` to `q` without
validating it; the second `_derive` validates the intermediate record and
rebuilds the same cache from its key bytes, so it raises exactly where the
intermediate key is invalid (a private scalar `0`). -/
theorem deriveData_append {k : BIP32KeyData} (hk : k.assertValid E = .ok ()) {p q : List Nat}
    (hd : k.depth + p.length + q.length ≤ 255) (fv : Option Bytes) :
    (deriveData E (.data k) p none >>= fun k' => deriveData E (.data k') q fv) =
      (deriveData E (.data k) p none >>= fun k' => k'.assertValid E >>= fun _ =>
        deriveData E (.data k) (p ++ q) fv) := by
  obtain ⟨w, ⟨hc, rfl⟩, -, heq⟩ := deriveData_eq_run E ((BIP32KeyData.assertValid_eq_ok_iff E _).1 hk)
    (p := p ++ q) (by rw [List.length_append]; omega) fv
  rw [heq, deriveData_of_coherent E hc (by omega) none, hk, ok_bind]
  rcases hrun : p.foldlM (ckd E) w with e | w'
  · rfl
  obtain ⟨hc', hd', -⟩ := ckdRun_eq_ok E hrun hc
  simp only [ok_bind, forceVersion_none, pure_bind]
  rw [deriveData_of_coherent E hc' (by omega) fv, List.foldlM_append, hrun, ok_bind]

theorem deriveData_append_at_masterKey :
    masterKey.assertValid modSevenEnv = .ok () ∧
      masterKey.depth + [0x80000000].length + [1].length ≤ 255 ∧
      (deriveData modSevenEnv (.data masterKey) [0x80000000] none >>= fun k' =>
          deriveData modSevenEnv (.data k') [1] none) =
        (deriveData modSevenEnv (.data masterKey) [0x80000000] none >>= fun k' =>
          k'.assertValid modSevenEnv >>= fun _ =>
            deriveData modSevenEnv (.data masterKey) ([0x80000000] ++ [1]) none) :=
  ⟨by decide, by decide, deriveData_append modSevenEnv (by decide) (by decide) none⟩

/-- From a valid public key, `_derive` raises on every path with a hardened index. -/
theorem raises_deriveData_of_hardened {k : BIP32KeyData} (hk : k.Valid E)
    (h0 : k.key.head? ≠ some 0) {p : List Nat} (hp : ∃ i ∈ p, 2 ^ 31 ≤ i) (fv : Option Bytes) :
    Raises (deriveData E (.data k) p fv) := by
  by_cases hd : k.depth + p.length ≤ 255
  · obtain ⟨w, ⟨-, rfl⟩, -, heq⟩ := deriveData_eq_run E hk hd fv
    rw [heq, raises_bind]
    exact .inl (raises_ckdRun_of_hardened E h0 hp)
  · simp [deriveData, not_le.1 hd]

/-- With any forced version, `_derive` fails exactly when the reference run
followed by the version step fails, and otherwise returns the same record. -/
theorem deriveData_resultRel {k : BIP32KeyData} (hk : k.Valid E) {p : List Nat}
    (hp : ∀ i ∈ p, i < 2 ^ 32) (hd : k.depth + p.length ≤ 255) (fv : Option Bytes) :
    ResultRel Eq (deriveData E (.data k) p fv)
      (p.foldlM (referenceCkd E) k >>= fun r => forceVersion E r fv) := by
  obtain ⟨w, hw, -, heq⟩ := deriveData_eq_run E hk hd fv
  have hrun : ResultRel (Simulates E) (p.foldlM (ckd E) w) (p.foldlM (referenceCkd E) k) := by
    apply ResultRel.foldlM p _ w k hw
    intro i hi a b h
    exact ckd_simulates E (hp i hi) h
  rw [heq]
  apply ResultRel.bind hrun
  rintro a b ⟨-, rfl⟩
  exact resultRel_eq_self _

/-- Multi-level derivation with the cached working state refines the left fold
of the reference single-step CKD. -/
theorem deriveData_refines_referenceCkd (k : BIP32KeyData) (p : List Nat)
    (hk : k.assertValid E = .ok ()) (hp : ∀ i ∈ p, i < 2 ^ 32) (hd : k.depth + p.length ≤ 255) :
    ResultRel Eq (deriveData E (.data k) p none) (p.foldlM (referenceCkd E) k) := by
  simpa [forceVersion] using
    deriveData_resultRel E ((BIP32KeyData.assertValid_eq_ok_iff E k).1 hk) hp hd none

theorem deriveData_refines_referenceCkd_at_masterKey :
    masterKey.assertValid modSevenEnv = .ok () ∧
      ResultRel Eq (deriveData modSevenEnv (.data masterKey) [0x80000000, 1] none)
        ([0x80000000, 1].foldlM (referenceCkd modSevenEnv) masterKey) :=
  ⟨by decide, deriveData_refines_referenceCkd modSevenEnv masterKey [0x80000000, 1] (by decide)
    (by decide) (by decide)⟩

/-! ## When `derive` raises -/

/-- The forced version is given (truthy) and is not a 4-byte version of `k`'s
own private or public registry. -/
def ForcedVersionBad (k : BIP32KeyData) (fv : Option Bytes) : Prop :=
  ∃ v, fv = some v ∧ v ≠ [] ∧ ¬ (v.length = 4 ∧
    v ∈ (if k.version ∈ E.xprvVersionsAll then E.xprvVersionsAll else E.xpubVersionsAll))

/-- The version on `_derive`'s result: the forced one if given, else the key's own. -/
def resultVersion (k : BIP32KeyData) : Option Bytes → Bytes
  | some v => if v ≠ [] then v else k.version
  | none => k.version

/-- The reference step from `r` at `i` yields the private scalar `0` or the point at infinity. -/
def StepDegenerate (r : BIP32KeyData) (i : Nat) : Prop :=
  if r.key.head? = some 0 then ∃ fp I, referenceCkdPrv E r i = .ok (fp, I, 0)
  else ∃ fp I, referenceCkdPub E r i = .ok (fp, I, 0)

/-- Some step of the reference derivation of `r` along the path is degenerate. -/
def ReferenceDegenerate : BIP32KeyData → List Nat → Prop
  | _, [] => False
  | r, i :: p => StepDegenerate E r i ∨ ∃ r', referenceCkd E r i = .ok r' ∧ ReferenceDegenerate r' p

theorem forceVersion_eq (r : BIP32KeyData) (fv : Option Bytes) (h : ¬ ForcedVersionBad E r fv) :
    forceVersion E r fv = .ok { r with version := resultVersion r fv } := by
  rcases fv with _ | v
  · rfl
  · by_cases hv : v = []
    · simp [forceVersion, resultVersion, hv]
    · have hgood := not_not.1 (fun hc => h ⟨v, rfl, hv, hc⟩)
      split_ifs at hgood <;>
        simp_all [forceVersion, resultVersion, bytesFromOctets]

theorem raises_forceVersion_iff (r : BIP32KeyData) (fv : Option Bytes) :
    Raises (forceVersion E r fv) ↔ ForcedVersionBad E r fv := by
  refine ⟨fun h => ?_, fun ⟨v, hfv, hv, hbad⟩ => ?_⟩
  · by_contra hb
    rw [forceVersion_eq E r fv hb] at h
    exact raises_ok _ h
  · subst hfv
    by_cases hl : v.length = 4 <;> simp_all [forceVersion, bytesFromOctets]

/-- The result version is the key's own, or a 4-byte version of its own registry. -/
theorem resultVersion_cases {r : BIP32KeyData} {fv : Option Bytes} (h : ¬ ForcedVersionBad E r fv) :
    resultVersion r fv = r.version ∨ (resultVersion r fv).length = 4 ∧ resultVersion r fv ∈
      (if r.version ∈ E.xprvVersionsAll then E.xprvVersionsAll else E.xpubVersionsAll) := by
  rcases fv with _ | v
  · exact .inl rfl
  · by_cases hv : v = []
    · simp [resultVersion, hv]
    · simp only [resultVersion, ne_eq, hv, not_false_eq_true, if_true]
      exact .inr (not_not.1 fun hc => h ⟨v, rfl, hv, hc⟩)

/-- Forcing a version of the key's own registry keeps a valid key valid. -/
theorem valid_resultVersion {r : BIP32KeyData} (hr : r.Valid E) {fv : Option Bytes}
    (h : ¬ ForcedVersionBad E r fv) : ({ r with version := resultVersion r fv }).Valid E := by
  rcases resultVersion_cases E h with hv | ⟨hl, hm⟩
  · rw [hv]
    exact hr
  · refine { hr with version_length := hl, key_ok := ?_ }
    rcases hr.key_ok with ⟨hp, h0, hq⟩ | ⟨hp, -, hsec⟩
    · simp only [hp, if_true] at hm
      exact .inl ⟨hm, h0, hq⟩
    · simp only [hp, if_false] at hm
      exact .inr ⟨fun hx => E.not_mem_xpub_of_mem_xprv hx hm, hm, hsec⟩

/-- What `derive` does after the loop: force the version, then encode (and validate). -/
def finish (fv : Option Bytes) (r : BIP32KeyData) : Except PyExc Bytes :=
  forceVersion E r fv >>= fun k => k.b58encode E true

theorem raises_finish_iff {r : BIP32KeyData} (hr : r.Valid E) (fv : Option Bytes) :
    Raises (finish E fv r) ↔ ForcedVersionBad E r fv := by
  by_cases hb : ForcedVersionBad E r fv
  · simp only [hb, iff_true, finish]
    obtain ⟨e, he⟩ := (raises_forceVersion_iff E r fv).2 hb
    simp [he]
  · simp [hb, finish, forceVersion_eq E r fv hb, BIP32KeyData.b58encode,
      BIP32KeyData.serialize_of_valid E (valid_resultVersion E hr hb)]

/-- A private record whose scalar is `0` can neither be derived from nor encoded. -/
theorem raises_of_zero_scalar {r : BIP32KeyData} (hv : r.version ∈ E.xprvVersionsAll)
    (hkey : r.key = 0 :: toBytesBE 32 0) (fv : Option Bytes) (p : List Nat) :
    Raises (p.foldlM (referenceCkd E) r >>= finish E fv) := by
  refine raises_referenceRun_of_zero_scalar E hkey ?_ p
  by_cases hb : ForcedVersionBad E r fv
  · obtain ⟨e, he⟩ := (raises_forceVersion_iff E r fv).2 hb
    simp [finish, he]
  · have hmem : resultVersion r fv ∈ E.xprvVersionsAll := by
      rcases resultVersion_cases E hb with h | ⟨-, h⟩
      · exact h ▸ hv
      · simpa [hv] using h
    have hnv : ¬ ({ r with version := resultVersion r fv }).Valid E := fun hval => by
      rcases hval.key_ok with ⟨-, -, h0, -⟩ | ⟨hp, -, -⟩
      · simp [hkey, fromBytesBE_toBytesBE] at h0
      · exact hp hmem
    simpa [finish, forceVersion_eq E r fv hb] using (BIP32KeyData.raises_b58encode_iff E _).2 hnv

/-- What one reference step from a valid key can do: raise (public key,
hardened index or point at infinity), yield the zero private scalar, or yield a
valid key of the same kind and version. -/
theorem referenceCkd_cases {r : BIP32KeyData} (hr : r.Valid E) (hd : r.depth < 255) {i : Nat}
    (hi : i < 2 ^ 32) :
    (Raises (referenceCkd E r i) ∧ r.key.head? ≠ some 0 ∧ (2 ^ 31 ≤ i ∨ StepDegenerate E r i)) ∨
    (StepDegenerate E r i ∧ ∃ r', referenceCkd E r i = .ok r' ∧
      r'.version ∈ E.xprvVersionsAll ∧ r'.key = 0 :: toBytesBE 32 0) ∨
    (¬ StepDegenerate E r i ∧ ¬ (r.key.head? ≠ some 0 ∧ 2 ^ 31 ≤ i) ∧ ∃ r', referenceCkd E r i = .ok r' ∧
      r'.Valid E ∧ r'.depth = r.depth + 1 ∧ r'.version = r.version ∧
      (r'.key.head? = some 0 ↔ r.key.head? = some 0)) := by
  by_cases h0 : r.key.head? = some 0
  · obtain ⟨hv, -, -, -⟩ := prvKeyOk_of_head E hr h0
    obtain ⟨fp, I, q, hprv, hfp, hI, hqn, href⟩ := referenceCkd_prv E hr h0 i
    have hdeg : StepDegenerate E r i ↔ q = 0 := by
      simp only [StepDegenerate, h0, if_true, hprv, Except.ok.injEq, Prod.mk.injEq]
      exact ⟨fun ⟨_, _, _, _, h⟩ => h, fun h => ⟨fp, I, rfl, rfl, h⟩⟩
    by_cases hq : q = 0
    · subst hq
      exact .inr (.inl ⟨hdeg.2 rfl, _, href, hv, rfl⟩)
    · have hval := E.ec.fromBytesBE_toBytesBE_scalar hqn
      refine .inr (.inr ⟨hq ∘ hdeg.1, by simp [h0], _, href, valid_child E hr hd hi hfp hI
        (by simp) (.inl ⟨hv, rfl, ?_, ?_⟩), rfl, rfl, by simp [child, h0]⟩) <;>
        simp only [child, List.tail_cons, hval] <;> omega
  · by_cases hh : 2 ^ 31 ≤ i
    · exact .inl ⟨raises_referenceCkd_hardened E h0 hh, h0, .inl hh⟩
    obtain ⟨hnv, hv, -⟩ := pubKeyOk_of_head E hr h0
    obtain ⟨fp, I, Q, hpub, hfp, hI, href⟩ := referenceCkdPub_ok E hr h0 (not_le.1 hh)
    have hdeg : StepDegenerate E r i ↔ Q = 0 := by
      simp only [StepDegenerate, h0, if_false, hpub, Except.ok.injEq, Prod.mk.injEq]
      exact ⟨fun ⟨_, _, _, _, h⟩ => h, fun h => ⟨fp, I, rfl, rfl, h⟩⟩
    by_cases hQ : Q = 0
    · refine .inl ⟨?_, h0, .inr (hdeg.2 hQ)⟩
      obtain ⟨e, he⟩ := (E.ec.raises_bytesFromPoint_iff Q).2 hQ
      exact ⟨e, by simp [href, he]⟩
    · obtain ⟨key, hkey, hsec, -⟩ := E.ec.bytesFromPoint_ok Q hQ
      have hhead : key.head? ≠ some 0 := by rcases hsec.2.1 with h | h <;> simp [h]
      refine .inr (.inr ⟨hQ ∘ hdeg.1, fun h => hh h.2, _, by simp [href, hkey],
        valid_child E hr hd hi hfp hI hsec.1 (.inr ⟨hnv, hv, hsec⟩), rfl, rfl, ?_⟩)
      simp [child, hhead, h0]

theorem forcedVersionBad_congr {k k' : BIP32KeyData} (h : k'.version = k.version)
    (fv : Option Bytes) : ForcedVersionBad E k' fv ↔ ForcedVersionBad E k fv := by
  simp only [ForcedVersionBad, h]

/-- From a valid key within the depth bound, the reference run followed by
`finish` raises exactly in the cases of `derive`'s contract. -/
theorem raises_referenceRun_iff (fv : Option Bytes) :
    ∀ (p : List Nat) (r : BIP32KeyData), r.Valid E → r.depth + p.length ≤ 255 →
      (∀ i ∈ p, i < 2 ^ 32) →
      (Raises (p.foldlM (referenceCkd E) r >>= finish E fv) ↔
        (r.key.head? ≠ some 0 ∧ ∃ i ∈ p, 2 ^ 31 ≤ i) ∨ ForcedVersionBad E r fv ∨
          ReferenceDegenerate E r p)
  | [], r, hr, _, _ => by simp [ReferenceDegenerate, raises_finish_iff E hr]
  | i :: p, r, hr, hd, hp => by
      have hd' : r.depth + p.length ≤ 254 := by simp at hd; omega
      rcases referenceCkd_cases E hr (by omega) (hp i (.head p)) with
        ⟨⟨e, he⟩, h0, hcase⟩ | ⟨hdeg, r', href, hv, hkey⟩ |
          ⟨hdeg, hnh, r', href, hr', hdr, hv, hhead⟩
      · -- the step raises: a hardened index from a public key, or the point at infinity
        simp only [List.foldlM_cons, he, error_bind, raises_error, true_iff]
        rcases hcase with hh | hdeg
        · exact .inl ⟨h0, i, .head p, hh⟩
        · exact .inr (.inr (.inl hdeg))
      · -- the step yields the zero scalar, from which nothing can be derived or encoded
        simp only [List.foldlM_cons, href, ok_bind, raises_of_zero_scalar E hv hkey fv p, true_iff]
        exact .inr (.inr (.inl hdeg))
      · -- the step yields a valid key of the same kind and version
        have ih := raises_referenceRun_iff fv p r' hr' (by rw [hdr]; omega)
          fun j hj => hp j (.tail i hj)
        have hhard : (r.key.head? ≠ some 0 ∧ ∃ j ∈ i :: p, 2 ^ 31 ≤ j) ↔
            (r'.key.head? ≠ some 0 ∧ ∃ j ∈ p, 2 ^ 31 ≤ j) := by
          simp only [ne_eq, hhead, List.mem_cons, exists_eq_or_imp]
          exact ⟨fun ⟨h0, hh⟩ => ⟨h0, hh.resolve_left fun h => hnh ⟨h0, h⟩⟩,
            fun ⟨h0, hh⟩ => ⟨h0, .inr hh⟩⟩
        have hdeg' : ReferenceDegenerate E r (i :: p) ↔ ReferenceDegenerate E r' p := by
          simp [ReferenceDegenerate, hdeg, href]
        rw [List.foldlM_cons, href, ok_bind, ih, forcedVersionBad_congr E hv, hhard, hdeg']

/-- The reference run increments the depth once per index, ends on the last
index and keeps the version. -/
theorem referenceRun_fields :
    ∀ {p : List Nat} {r rf : BIP32KeyData}, p.foldlM (referenceCkd E) r = .ok rf →
      rf.depth = r.depth + p.length ∧
        rf.index = (p.getLast?.map fun i : Nat => (i : Int)).getD r.index ∧ rf.version = r.version
  | [], r, rf, h => by
      cases h
      simp
  | i :: p, r, rf, h => by
      obtain ⟨r1, h1, hrun⟩ := bind_eq_ok.1 h
      obtain ⟨hd1, hi1, hv1⟩ := referenceCkd_fields E h1
      obtain ⟨hd, hi, hv⟩ := referenceRun_fields hrun
      refine ⟨by simp [hd, hd1]; ring, ?_, hv.trans hv1⟩
      rw [hi, hi1, List.getLast?_cons]
      cases p.getLast? <;> rfl

/-- `derive` is the reference run followed by `finish`, up to the exception raised. -/
theorem derive_resultRel {k : BIP32KeyData} (hk : k.Valid E) {p : List Nat}
    (hp : ∀ i ∈ p, i < 2 ^ 32) (hd : k.depth + p.length ≤ 255) (fv : Option Bytes) :
    ResultRel Eq (derive E (.data k) p fv) (p.foldlM (referenceCkd E) k >>= finish E fv) := by
  have h : ResultRel Eq (derive E (.data k) p fv)
      ((p.foldlM (referenceCkd E) k >>= fun r => forceVersion E r fv) >>= fun r => r.b58encode E true) :=
    ResultRel.bind (deriveData_resultRel E hk hp hd fv) fun a b hab => hab ▸ resultRel_eq_self _
  simpa only [finish, bind_assoc] using h

/-- `derive`'s contract on valid keys: when it raises, and what it returns. -/
theorem derive_raises_iff (k : BIP32KeyData) (p : List Nat) (fv : Option Bytes)
    (hk : k.assertValid E = .ok ()) (hp : ∀ i ∈ p, i < 2 ^ 32) :
    (Raises (derive E (.data k) p fv) ↔
      255 < k.depth + p.length ∨ (k.key.head? ≠ some 0 ∧ ∃ i ∈ p, 2 ^ 31 ≤ i) ∨
        ForcedVersionBad E k fv ∨ ReferenceDegenerate E k p) ∧
    ∀ s, derive E (.data k) p fv = .ok s → ∃ k' : BIP32KeyData, k'.assertValid E = .ok () ∧
      k'.b58encode E true = .ok s ∧ k'.depth = k.depth + p.length ∧
      k'.index = (p.getLast?.map fun i : Nat => (i : Int)).getD k.index ∧
      k'.version = resultVersion k fv := by
  have hv := (BIP32KeyData.assertValid_eq_ok_iff E k).1 hk
  by_cases hd : k.depth + p.length ≤ 255
  · have hrel := derive_resultRel E hv hp hd fv
    refine ⟨?_, fun s hs => ?_⟩
    · rw [hrel.raises_iff, raises_referenceRun_iff E fv p k hv hd hp]
      simp only [not_lt.2 hd, false_or]
    · obtain ⟨rf, hrun, hfin⟩ := bind_eq_ok.1 (hrel.eq_ok hs)
      obtain ⟨k', hforce, henc⟩ := bind_eq_ok.1 hfin
      have hgood : ¬ ForcedVersionBad E rf fv := fun hb =>
        raises_ok _ (hforce ▸ (raises_forceVersion_iff E rf fv).2 hb)
      rw [forceVersion_eq E rf fv hgood, Except.ok.injEq] at hforce
      subst hforce
      obtain ⟨hdf, hif, hvf⟩ := referenceRun_fields E hrun
      refine ⟨_, (BIP32KeyData.assertValid_eq_ok_iff E _).2 (not_not.1 fun hnv =>
        raises_ok _ (henc ▸ (BIP32KeyData.raises_b58encode_iff E _).2 hnv)), henc, hdf, hif, ?_⟩
      simp only [resultVersion] at *
      rcases fv with _ | v <;> simp [hvf]
  · have hr : Raises (derive E (.data k) p fv) := by
      simp [derive, deriveData, not_le.1 hd]
    refine ⟨iff_of_true hr (.inl (not_le.1 hd)), fun s hs => absurd hr ?_⟩
    rw [hs]
    exact raises_ok _

/-- A forced version of three bytes makes `derive` raise. -/
theorem derive_raises_at_short_version :
    masterKey.assertValid modSevenEnv = .ok () ∧
      Raises (derive modSevenEnv (.data masterKey) [1] (some [1, 2, 3])) :=
  ⟨by decide, (derive_raises_iff modSevenEnv masterKey [1] (some [1, 2, 3]) (by decide)
    (by decide)).1.2 (.inr (.inr (.inl ⟨[1, 2, 3], rfl, by decide, by decide⟩)))⟩

end Bip32
end Btclib
