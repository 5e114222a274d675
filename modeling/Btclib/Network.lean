import Btclib.Python

/-!
# Network version tables

`network.py` loads one table per network from `_data/<network>.json` (not
part of the sources) and builds the registries of extended-key versions that
`bip32.py` checks against:

* `xprvversions_from_network` / `xpubversions_from_network`: the five
  private (public) SLIP-132 tags of one network, in a fixed order;
* `XPRV_VERSIONS_ALL` / `XPUB_VERSIONS_ALL`: mainnet's tags followed by
  testnet's twice (regtest shares testnet's tags).

`bip32.py` imports the registries as `_XPRV_VERSIONS_ALL` and
`_XPUB_VERSIONS_ALL`.

Since the JSON tables are not in the sources, the two tables are parameters
(`Networks`), with the properties of their contents that the code relies on:
every tag has four bytes, and no tag is both a private and a public version.
`slip132Networks` is the table of the published tags and satisfies them.

Each table is a `Network`, validated when it is built (`__post_init__` with
`check_validity=True`): `assert_valid` checks the length of every field that
`_KEY_SIZE` names, in its order.

**Results.**
* `length_xprvVersionsAll`: the two registries have the same length, so the
  index-aligned lookup of `_xpub_from_xprv` never runs past the end.
* `Network.assertValid_eq_ok_iff`: `assert_valid` passes exactly on `Valid`
  networks; `Network.assertValid_eq_error`: otherwise it raises at the first
  bad entry of `_KEY_SIZE`, naming the field, its length and the size asked.
* `length_versionsAll_of_assertValid`: registries built from validated
  networks hold only four-byte tags, the length laws of `Networks`.
* `networkFromXkeyversion_ne_regtest`: `network_from_xkeyversion` never
  answers regtest.
-/

namespace Btclib

/-- The version tags of one network table that `bip32` reads. -/
structure VersionTable where
  bip32Prv : Bytes
  bip32Pub : Bytes
  slip132P2wpkhPrv : Bytes
  slip132P2wpkhPub : Bytes
  slip132P2wpkhP2shPrv : Bytes
  slip132P2wpkhP2shPub : Bytes
  slip132P2wshPrv : Bytes
  slip132P2wshPub : Bytes
  slip132P2wshP2shPrv : Bytes
  slip132P2wshP2shPub : Bytes
deriving DecidableEq, Repr

/-- `xprvversions_from_network`. -/
def xprvversionsFromNetwork (t : VersionTable) : List Bytes :=
  [t.bip32Prv, t.slip132P2wshP2shPrv, t.slip132P2wpkhP2shPrv, t.slip132P2wpkhPrv,
    t.slip132P2wshPrv]

/-- `xpubversions_from_network`. -/
def xpubversionsFromNetwork (t : VersionTable) : List Bytes :=
  [t.bip32Pub, t.slip132P2wshP2shPub, t.slip132P2wpkhP2shPub, t.slip132P2wpkhPub,
    t.slip132P2wshPub]

/-- `XPRV_VERSIONS_ALL`. -/
def xprvVersionsAll (mainnet testnet : VersionTable) : List Bytes :=
  xprvversionsFromNetwork mainnet ++ xprvversionsFromNetwork testnet ++
    xprvversionsFromNetwork testnet

/-- `XPUB_VERSIONS_ALL`. -/
def xpubVersionsAll (mainnet testnet : VersionTable) : List Bytes :=
  xpubversionsFromNetwork mainnet ++ xpubversionsFromNetwork testnet ++
    xpubversionsFromNetwork testnet

theorem length_xprvVersionsAll (mainnet testnet : VersionTable) :
    (xprvVersionsAll mainnet testnet).length = (xpubVersionsAll mainnet testnet).length :=
  rfl

/-- The loaded tables, with their private and public tags apart. -/
structure Networks where
  mainnet : VersionTable
  testnet : VersionTable
  prv_not_pub : ∀ v ∈ xprvVersionsAll mainnet testnet, v ∉ xpubVersionsAll mainnet testnet
  length_xprv : ∀ v ∈ xprvVersionsAll mainnet testnet, v.length = 4
  length_xpub : ∀ v ∈ xpubVersionsAll mainnet testnet, v.length = 4

/-- The published SLIP-132 tags of mainnet and testnet. -/
def slip132Networks : Networks where
  mainnet :=
    { bip32Prv := [0x04, 0x88, 0xAD, 0xE4], bip32Pub := [0x04, 0x88, 0xB2, 0x1E]
      slip132P2wpkhPrv := [0x04, 0xB2, 0x43, 0x0C], slip132P2wpkhPub := [0x04, 0xB2, 0x47, 0x46]
      slip132P2wpkhP2shPrv := [0x04, 0x9D, 0x78, 0x78]
      slip132P2wpkhP2shPub := [0x04, 0x9D, 0x7C, 0xB2]
      slip132P2wshPrv := [0x02, 0xAA, 0x7A, 0x99], slip132P2wshPub := [0x02, 0xAA, 0x7E, 0xD3]
      slip132P2wshP2shPrv := [0x02, 0x95, 0xB0, 0x05]
      slip132P2wshP2shPub := [0x02, 0x95, 0xB4, 0x3F] }
  testnet :=
    { bip32Prv := [0x04, 0x35, 0x83, 0x94], bip32Pub := [0x04, 0x35, 0x87, 0xCF]
      slip132P2wpkhPrv := [0x04, 0x5F, 0x18, 0xBC], slip132P2wpkhPub := [0x04, 0x5F, 0x1C, 0xF6]
      slip132P2wpkhP2shPrv := [0x04, 0x4A, 0x4E, 0x28]
      slip132P2wpkhP2shPub := [0x04, 0x4A, 0x52, 0x62]
      slip132P2wshPrv := [0x02, 0x57, 0x50, 0x48], slip132P2wshPub := [0x02, 0x57, 0x54, 0x83]
      slip132P2wshP2shPrv := [0x02, 0x42, 0x85, 0xB5]
      slip132P2wshP2shPub := [0x02, 0x42, 0x89, 0xEF] }
  prv_not_pub := by decide
  length_xprv := by decide
  length_xpub := by decide

/-! ## The `Network` record and its validation -/

/-- A `Network` of `NETWORKS`, with the byte fields that `assert_valid` checks.
The `curve` (not checked) and the `hrp` (only passed to `str`) are left out. -/
structure Network where
  magicBytes : Bytes
  genesisBlock : Bytes
  wif : Bytes
  p2pkh : Bytes
  p2sh : Bytes
  bip32Prv : Bytes
  bip32Pub : Bytes
  slip132P2wpkhPrv : Bytes
  slip132P2wpkhPub : Bytes
  slip132P2wpkhP2shPrv : Bytes
  slip132P2wpkhP2shPub : Bytes
  slip132P2wshPrv : Bytes
  slip132P2wshPub : Bytes
  slip132P2wshP2shPrv : Bytes
  slip132P2wshP2shPub : Bytes
deriving DecidableEq, Repr

/-- `_KEY_SIZE`: each checked field and its length in bytes. -/
def keySize : List (String × Nat) :=
  [("magic_bytes", 4), ("genesis_block", 32), ("wif", 1), ("p2pkh", 1), ("p2sh", 1),
    ("bip32_prv", 4), ("bip32_pub", 4), ("slip132_p2wpkh_prv", 4), ("slip132_p2wpkh_pub", 4),
    ("slip132_p2wpkh_p2sh_prv", 4), ("slip132_p2wpkh_p2sh_pub", 4), ("slip132_p2wsh_prv", 4),
    ("slip132_p2wsh_pub", 4), ("slip132_p2wsh_p2sh_prv", 4), ("slip132_p2wsh_p2sh_pub", 4)]

namespace Network

/-- `getattr(self, key)`. -/
def getattr (n : Network) : String → Except PyExc Bytes
  | "magic_bytes" => .ok n.magicBytes
  | "genesis_block" => .ok n.genesisBlock
  | "wif" => .ok n.wif
  | "p2pkh" => .ok n.p2pkh
  | "p2sh" => .ok n.p2sh
  | "bip32_prv" => .ok n.bip32Prv
  | "bip32_pub" => .ok n.bip32Pub
  | "slip132_p2wpkh_prv" => .ok n.slip132P2wpkhPrv
  | "slip132_p2wpkh_pub" => .ok n.slip132P2wpkhPub
  | "slip132_p2wpkh_p2sh_prv" => .ok n.slip132P2wpkhP2shPrv
  | "slip132_p2wpkh_p2sh_pub" => .ok n.slip132P2wpkhP2shPub
  | "slip132_p2wsh_prv" => .ok n.slip132P2wshPrv
  | "slip132_p2wsh_pub" => .ok n.slip132P2wshPub
  | "slip132_p2wsh_p2sh_prv" => .ok n.slip132P2wshP2shPrv
  | "slip132_p2wsh_p2sh_pub" => .ok n.slip132P2wshP2shPub
  | key =>
    .error (.attributeError ("\x27Network\x27 object has no attribute \x27" ++ key ++ "\x27"))

/-- The message of `assert_valid` for a field `key` of `length` bytes instead
of `size`. -/
def lengthError (key : String) (length size : Nat) : PyExc :=
  .btclibValueError ("invalid " ++ key ++ " length: " ++ toString length ++ " bytes" ++
    " instead of " ++ toString size)

/-- One round of the loop of `assert_valid`. -/
def checkKeySize (n : Network) (entry : String × Nat) : Except PyExc Unit := do
  let value ← n.getattr entry.1
  if value.length ≠ entry.2 then throw (lengthError entry.1 value.length entry.2)

/-- `Network.assert_valid`. -/
def assertValid (n : Network) : Except PyExc Unit :=
  keySize.forM n.checkKeySize

/-- The tags of a network that `bip32` reads. -/
def versionTable (n : Network) : VersionTable :=
  { bip32Prv := n.bip32Prv, bip32Pub := n.bip32Pub, slip132P2wpkhPrv := n.slip132P2wpkhPrv
    slip132P2wpkhPub := n.slip132P2wpkhPub, slip132P2wpkhP2shPrv := n.slip132P2wpkhP2shPrv
    slip132P2wpkhP2shPub := n.slip132P2wpkhP2shPub, slip132P2wshPrv := n.slip132P2wshPrv
    slip132P2wshPub := n.slip132P2wshPub, slip132P2wshP2shPrv := n.slip132P2wshP2shPrv
    slip132P2wshP2shPub := n.slip132P2wshP2shPub }

/-- The lengths that `_KEY_SIZE` asks of a network. -/
@[mk_iff] structure Valid (n : Network) : Prop where
  magicBytes : n.magicBytes.length = 4
  genesisBlock : n.genesisBlock.length = 32
  wif : n.wif.length = 1
  p2pkh : n.p2pkh.length = 1
  p2sh : n.p2sh.length = 1
  bip32Prv : n.bip32Prv.length = 4
  bip32Pub : n.bip32Pub.length = 4
  slip132P2wpkhPrv : n.slip132P2wpkhPrv.length = 4
  slip132P2wpkhPub : n.slip132P2wpkhPub.length = 4
  slip132P2wpkhP2shPrv : n.slip132P2wpkhP2shPrv.length = 4
  slip132P2wpkhP2shPub : n.slip132P2wpkhP2shPub.length = 4
  slip132P2wshPrv : n.slip132P2wshPrv.length = 4
  slip132P2wshPub : n.slip132P2wshPub.length = 4
  slip132P2wshP2shPrv : n.slip132P2wshP2shPrv.length = 4
  slip132P2wshP2shPub : n.slip132P2wshP2shPub.length = 4

/-- Every key of `_KEY_SIZE` is a field of `Network`. -/
theorem getattr_of_mem (n : Network) {entry : String × Nat} (h : entry ∈ keySize) :
    ∃ v, n.getattr entry.1 = .ok v := by
  simp only [keySize, List.mem_cons, List.not_mem_nil, or_false] at h
  rcases h with rfl | rfl | rfl | rfl | rfl | rfl | rfl | rfl | rfl | rfl | rfl | rfl | rfl |
    rfl | rfl <;> exact ⟨_, rfl⟩

/-- `assert_valid` passes exactly on networks with the lengths of `_KEY_SIZE`. -/
theorem assertValid_eq_ok_iff (n : Network) : n.assertValid = .ok () ↔ n.Valid := by
  simp [assertValid, forM_eq_ok_iff, keySize, checkKeySize, getattr, valid_iff]

/-- A round of the loop on a field that `getattr` finds. -/
theorem checkKeySize_of_getattr {n : Network} {entry : String × Nat} {v : Bytes}
    (hv : n.getattr entry.1 = .ok v) :
    n.checkKeySize entry =
      if v.length = entry.2 then .ok () else .error (lengthError entry.1 v.length entry.2) := by
  by_cases hl : v.length = entry.2 <;> simp [checkKeySize, hv, hl]

/-- `assert_valid` raises at the first entry of `_KEY_SIZE` whose field has
another length, after every entry before it passed, and its message names that
field, its length and the size asked. -/
theorem assertValid_eq_error {n : Network} {e : PyExc} (h : n.assertValid = .error e) :
    ∃ pre key size post, keySize = pre ++ (key, size) :: post ∧
      (∀ entry ∈ pre, ∃ v, n.getattr entry.1 = .ok v ∧ v.length = entry.2) ∧
      ∃ v, n.getattr key = .ok v ∧ v.length ≠ size ∧ e = lengthError key v.length size := by
  obtain ⟨pre, ⟨key, size⟩, post, hk, hpre, he⟩ := forM_eq_error h
  refine ⟨pre, key, size, post, hk, fun entry hentry => ?_, ?_⟩
  · obtain ⟨v, hv⟩ := getattr_of_mem n (hk ▸ List.mem_append_left _ hentry)
    have hc := hpre entry hentry
    rw [checkKeySize_of_getattr hv] at hc
    split_ifs at hc with hl
    exact ⟨v, hv, hl⟩
  · obtain ⟨v, hv⟩ :=
      getattr_of_mem n (hk ▸ List.mem_append_right _ (List.mem_cons_self _ _))
    rw [checkKeySize_of_getattr hv] at he
    split_ifs at he with hl
    cases he
    exact ⟨v, hv, hl, rfl⟩

/-- The tags of a valid network have four bytes. -/
theorem Valid.length_versions {n : Network} (hv : n.Valid) :
    (∀ v ∈ xprvversionsFromNetwork n.versionTable, v.length = 4) ∧
      ∀ v ∈ xpubversionsFromNetwork n.versionTable, v.length = 4 := by
  simp [xprvversionsFromNetwork, xpubversionsFromNetwork, versionTable, hv.bip32Prv, hv.bip32Pub,
    hv.slip132P2wpkhPrv, hv.slip132P2wpkhPub, hv.slip132P2wpkhP2shPrv, hv.slip132P2wpkhP2shPub,
    hv.slip132P2wshPrv, hv.slip132P2wshPub, hv.slip132P2wshP2shPrv, hv.slip132P2wshP2shPub]

end Network

/-- The registries built from a mainnet and a testnet that passed
`assert_valid`, as `__post_init__` makes every network loaded into `NETWORKS`
do, hold only four-byte tags: the length laws that `Networks` assumes. -/
theorem length_versionsAll_of_assertValid {mainnet testnet : Network}
    (hm : mainnet.assertValid = .ok ()) (ht : testnet.assertValid = .ok ()) :
    (∀ v ∈ xprvVersionsAll mainnet.versionTable testnet.versionTable, v.length = 4) ∧
      ∀ v ∈ xpubVersionsAll mainnet.versionTable testnet.versionTable, v.length = 4 := by
  obtain ⟨hmPrv, hmPub⟩ := ((Network.assertValid_eq_ok_iff mainnet).1 hm).length_versions
  obtain ⟨htPrv, htPub⟩ := ((Network.assertValid_eq_ok_iff testnet).1 ht).length_versions
  refine ⟨fun v hv => ?_, fun v hv => ?_⟩ <;>
    simp only [xprvVersionsAll, xpubVersionsAll, List.mem_append] at hv
  · rcases hv with (hv | hv) | hv
    exacts [hmPrv v hv, htPrv v hv, htPrv v hv]
  · rcases hv with (hv | hv) | hv
    exacts [hmPub v hv, htPub v hv, htPub v hv]

/-- `network_from_key_value` over the byte fields: the first network of
`NETWORKS`, in its order, whose field `key` holds `value`. -/
def networkFromKeyValue :
    List (String × Network) → String → Bytes → Except PyExc (Option String)
  | [], _, _ => pure none
  | (name, n) :: rest, key, value => do
    if (← n.getattr key) = value then return some name
    networkFromKeyValue rest key value

/-! ## The network of a version -/

/-- `_REPEATED_NETWORKS`: each network of `NETWORKS` (mainnet, testnet, regtest)
once per version of a network. -/
def repeatedNetworks (nVersions : Nat) : List String :=
  List.replicate nVersions "mainnet" ++ List.replicate nVersions "testnet" ++
    List.replicate nVersions "regtest"

/-- The registry position of a version in `network_from_xkeyversion`: the
private registry first, the public one on `ValueError`. -/
def xkeyversionIndex (N : Networks) (xkeyversion : Bytes) : Except PyExc Nat :=
  match listIndex xkeyversion (xprvVersionsAll N.mainnet N.testnet) with
  | .error (.valueError _) => listIndex xkeyversion (xpubVersionsAll N.mainnet N.testnet)
  | r => r

/-- `network_from_xkeyversion`. -/
def networkFromXkeyversion (N : Networks) (xkeyversion : Bytes) : Except PyExc String := do
  let index ← xkeyversionIndex N xkeyversion
  getItem (repeatedNetworks (xprvversionsFromNetwork N.mainnet).length) index

/-- The network of a registry position below 10: mainnet's block, then testnet's. -/
theorem getItem_repeatedNetworks :
    ∀ i < 10, getItem (repeatedNetworks 5) i = .ok (if i < 5 then "mainnet" else "testnet") := by
  decide

/-- The network of the first position of a tag in `l₁ ++ l₂ ++ l₂` (blocks of
five): mainnet exactly for the tags of `l₁`. -/
theorem listIndex_bind_repeatedNetworks {l₁ l₂ : List Bytes} (h1 : l₁.length = 5)
    (h2 : l₂.length = 5) {v : Bytes} (hv : v ∈ l₁ ++ l₂ ++ l₂) :
    (listIndex v (l₁ ++ l₂ ++ l₂) >>= getItem (repeatedNetworks 5)) =
      .ok (if v ∈ l₁ then "mainnet" else "testnet") := by
  rw [List.append_assoc] at hv ⊢
  by_cases h : v ∈ l₁
  · obtain ⟨i, hi, he, -⟩ := listIndex_eq_ok_of_mem l₁ h
    rw [listIndex_append_of_mem h, he, ok_bind, getItem_repeatedNetworks _ (by omega),
      if_pos (by omega), if_pos h]
  · have hv2 : v ∈ l₂ := by simpa [h] using hv
    obtain ⟨j, hj, he, -⟩ := listIndex_eq_ok_of_mem l₂ hv2
    rw [listIndex_append_of_not_mem h, listIndex_append_of_mem hv2, he]
    rw [show Except.map (l₁.length + ·) (.ok j : Except PyExc Nat) = .ok (5 + j) by rw [h1]; rfl,
      ok_bind, getItem_repeatedNetworks _ (by omega), if_neg (by omega), if_neg h]

/-- The network of a private tag: mainnet for mainnet's tags, testnet for the others. -/
theorem networkFromXkeyversion_of_mem_xprv (N : Networks) {v : Bytes}
    (hv : v ∈ xprvVersionsAll N.mainnet N.testnet) :
    networkFromXkeyversion N v =
      .ok (if v ∈ xprvversionsFromNetwork N.mainnet then "mainnet" else "testnet") := by
  obtain ⟨i, -, he, -⟩ := listIndex_eq_ok_of_mem _ hv
  have hidx : xkeyversionIndex N v = listIndex v (xprvVersionsAll N.mainnet N.testnet) := by
    simp [xkeyversionIndex, he]
  rw [networkFromXkeyversion, hidx]
  exact listIndex_bind_repeatedNetworks (by rfl) (by rfl) hv

/-- The network of a public tag, found on the `ValueError` of the private
registry. -/
theorem networkFromXkeyversion_of_mem_xpub (N : Networks) {v : Bytes}
    (hv : v ∈ xpubVersionsAll N.mainnet N.testnet) :
    networkFromXkeyversion N v =
      .ok (if v ∈ xpubversionsFromNetwork N.mainnet then "mainnet" else "testnet") := by
  have hn : v ∉ xprvVersionsAll N.mainnet N.testnet := fun h => N.prv_not_pub v h hv
  have hidx : xkeyversionIndex N v = listIndex v (xpubVersionsAll N.mainnet N.testnet) := by
    simp [xkeyversionIndex, listIndex_of_not_mem hn]
  rw [networkFromXkeyversion, hidx]
  exact listIndex_bind_repeatedNetworks (by rfl) (by rfl) hv

/-- In a registry that ends with its last block twice, `list.index` stops
before the repetition. -/
theorem lt_of_listIndex_append_self {α : Type} [DecidableEq α] {x : α} {l₁ l₂ : List α}
    {i : Nat} (h : listIndex x (l₁ ++ l₂ ++ l₂) = .ok i) : i < l₁.length + l₂.length := by
  by_cases hx : x ∈ l₁ ++ l₂
  · obtain ⟨j, hj, he, -⟩ := listIndex_eq_ok_of_mem _ hx
    rw [listIndex_append_of_mem hx, he, Except.ok.injEq] at h
    simpa [← h] using hj
  · have hx' : x ∉ l₁ ++ l₂ ++ l₂ := by simp_all
    obtain ⟨e, he⟩ := raises_listIndex_of_not_mem _ hx'
    rw [he] at h
    cases h

/-- Regtest shares testnet's tags, which come first: the lookup never answers
regtest, as the docstring of `network_from_xkeyversion` warns. -/
theorem networkFromXkeyversion_ne_regtest (N : Networks) (xkeyversion : Bytes) :
    networkFromXkeyversion N xkeyversion ≠ .ok "regtest" := by
  intro h
  obtain ⟨i, hi, hg⟩ := bind_eq_ok.1 h
  have hlt : i < 10 := by
    unfold xkeyversionIndex at hi
    split at hi
    · exact lt_of_listIndex_append_self hi
    · exact lt_of_listIndex_append_self hi
  have hA : i < (List.replicate 5 "mainnet" ++ List.replicate 5 "testnet").length := by
    simpa using hlt
  have hmem := mem_of_getItem_eq_ok ((getItem_append_left hA).symm.trans hg)
  simp at hmem

end Btclib
