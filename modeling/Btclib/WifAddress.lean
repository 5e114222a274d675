import Btclib.Collaborators

/-!
# WIF and address encoding

`wifaddress.py` writes a private key in the Wallet Import Format, and the
`h160` of a public key or of a redeem script as a P2PKH or P2SH address: a
one-byte network prefix, the payload, and Base58Check. Its three prefix tables
are indexed like `_NETWORKS = [mainnet, testnet, regtest]`, and regtest repeats
testnet's prefixes, so a decoder that looks a prefix up by `list.index` always
finds testnet for it.

**Collaborators.** `base58.encode` and `base58.decode(v, size)` are the
Base58Check service (`Base58`), `h160` is `Hashes.hash160`, and every entry of
`_CURVES` is secp256k1 (`Secp`), whose `nsize` is 32. `octets_from_int` and
`int_from_octets` of `btclib.utils` are not in the sources; they are the
big-endian `int.to_bytes(size)` and `int.from_bytes`, as their names and the
tests (`octets_from_int(badq, ec.psize)`) use them.

**Results.**
* `prvkeyFromWif_wifFromPrvkey`: a key whose octets are its 32-byte encoding
  comes back with its compression flag and the first network of its prefix.
* `length_of_wif_roundtrip`: a key given as octets comes back only if it has
  32 bytes; the `int` path pads to 32 bytes, the octets path does not.
* `wifFromPrvkey_prvkeyFromWif`: every WIF that `prvkey_from_wif` accepts is
  the encoding `wif_from_prvkey` gives what it returns, so distinct accepted
  payloads never decode to the same triple.
* `h160FromAddress_addressFromH160`: decoding an address gives back the `h160`
  on a network that is the first with its prefix, and raises on the others;
  `h160_roundtrip_regtest_raises`: on regtest both decoders raise for every
  `x`, against the comment "check that it is a p2pkh address for the given
  network".
* `p2pkhAddressFromWif_wifFromPrvkey`: the address of the WIF of a key is the
  P2PKH address of its public key on the key's network.
-/

namespace Btclib
namespace WifAddress

/-- `_NETWORKS`. -/
def networks : List String := ["mainnet", "testnet", "regtest"]

/-- `_WIF_PREFIXES`. -/
def wifPrefixes : List Bytes := [[0x80], [0xef], [0xef]]

/-- `_P2PKH_PREFIXES`. -/
def p2pkhPrefixes : List Bytes := [[0x00], [0x6f], [0x6f]]

/-- `_P2SH_PREFIXES`. -/
def p2shPrefixes : List Bytes := [[0x05], [0xc4], [0xc4]]

/-- `ec.nsize` of secp256k1, the curve of every entry of `_CURVES`. -/
def nsize : Nat := 32

/-- A `str` or a `bytes` argument (`Union[str, bytes]`). -/
inductive Text where
  | str (s : Bytes)
  | bytes (b : Bytes)

/-- `if isinstance(x, str): x = x.strip()`. -/
def Text.strip : Text → Text
  | .str s => .str (Btclib.strip s)
  | .bytes b => .bytes b

/-- The characters or octets of the argument. -/
def Text.toBytes : Text → Bytes
  | .str s => s
  | .bytes b => b

/-- The argument as an f-string shows it (`b'...'` for `bytes`). -/
def Text.format : Text → String
  | .str s => asciiString s
  | .bytes b => "b\x27" ++ asciiString b ++ "\x27"

/-- The `prvkey` argument of `wif_from_prvkey`: an `int`, a hex `str`, or octets. -/
inductive PrvKey where
  | int (q : Int)
  | str (s : Bytes)
  | octets (b : Bytes)

/-- The `isinstance` dispatch of `wif_from_prvkey`: the octets appended to the
prefix, and the integer that is then range-checked. -/
def PrvKey.octetsAndValue : PrvKey → Except PyExc (Bytes × Int)
  | .int q => do
      let o ← intToBytes q nsize .big
      pure (o, q)
  | .str s => do
      let t ← fromhex (strip s)
      pure (t, fromBytesBE t)
  | .octets b => pure (b, fromBytesBE b)

/-- The first network whose prefix in `prefixes` is that of `network`: the
network a decoder reports for it. -/
def firstNetwork (prefixes : List Bytes) (network : String) : String :=
  networks.getD (prefixes.indexOf (prefixes.getD (networks.indexOf network) [])) ""

/-- Every key whose `int` value fits in 32 bytes is padded to 32 bytes. -/
theorem octetsAndValue_int {q : Nat} (hq : q < 256 ^ 32) :
    (PrvKey.int q).octetsAndValue = .ok (toBytesBE 32 q, q) := by
  simp [PrvKey.octetsAndValue, nsize, intToBytes_natCast_big hq]

/-- The hex text of a 32-byte encoding gives that encoding. -/
theorem octetsAndValue_hex {q : Nat} (hq : q < 256 ^ 32) :
    (PrvKey.str (hex (toBytesBE 32 q))).octetsAndValue = .ok (toBytesBE 32 q, q) := by
  simp [PrvKey.octetsAndValue, strip_hex, fromhex_hex, fromBytesBE_toBytesBE_of_lt hq]

section Codec

variable {P : Type} [AddCommGroup P] (ec : Secp P) (hashes : Hashes) (base58 : Base58)

/-- `wif_from_prvkey`. -/
def wifFromPrvkey (prvkey : PrvKey) (compressed : Bool) (network : String) :
    Except PyExc Bytes := do
  let networkIndex ← listIndex network networks
  let payload ← getItem wifPrefixes networkIndex
  let (octets, prvkey) ← prvkey.octetsAndValue
  let payload := payload ++ octets
  if ¬ (0 < prvkey ∧ prvkey < ec.n) then
    throw (.valueError ("private key " ++ hexInt prvkey ++ " not in (0, ec.n)"))
  let payload := payload ++ (if compressed then [0x01] else [])
  pure (base58.b58encode payload)

/-- The size test of `prvkey_from_wif`: the compression flag and the scalar. -/
def wifPayloadKey (payload : Bytes) : Except PyExc (Bool × Nat) :=
  if payload.length = nsize + 2 then
    if payload.getLast? ≠ some 0x01 then
      .error (.valueError "Not a compressed WIF: missing trailing 0x01")
    else .ok (true, fromBytesBE (payload.drop 1).dropLast)
  else if payload.length = nsize + 1 then
    .ok (false, fromBytesBE (payload.drop 1))
  else
    .error (.valueError ("Not a WIF: wrong size (" ++ toString payload.length ++ ")"))

/-- A payload is read as compressed exactly when it has 34 bytes, and as
uncompressed when it has 33. -/
theorem length_of_wifPayloadKey {payload : Bytes} {c : Bool} {prv : Nat}
    (h : wifPayloadKey payload = .ok (c, prv)) :
    payload.length = if c then nsize + 2 else nsize + 1 := by
  unfold wifPayloadKey at h
  split_ifs at h with h34 hlast h33 <;> simp_all

/-- `prvkey_from_wif`. -/
def prvkeyFromWif (wif : Text) : Except PyExc (Nat × Bool × String) := do
  let wif := wif.strip
  let payload ← base58.b58decode wif.toBytes none
  let wifIndex ← listIndex (payload.take 1) wifPrefixes
  let (compressed, prv) ← wifPayloadKey payload
  if ¬ (0 < prv ∧ prv < ec.n) then
    throw (.valueError ("Not a WIF: private key " ++ hexInt prv ++ " not in [1, n-1]"))
  let network ← getItem networks wifIndex
  pure (prv, compressed, network)

/-- The body of `p2pkh_address` and `p2sh_address`: the network's prefix and
the `h160` of the data, in Base58Check. -/
def addressFromH160 (prefixes : List Bytes) (x : Bytes) (network : String) :
    Except PyExc Bytes := do
  let payload ← getItem prefixes (← listIndex network networks)
  let payload := payload ++ hashes.hash160 x
  pure (base58.b58encode payload)

/-- `p2pkh_address`. -/
def p2pkhAddress (pubkey : Bytes) (network : String) : Except PyExc Bytes :=
  addressFromH160 hashes base58 p2pkhPrefixes pubkey network

/-- `p2sh_address`. -/
def p2shAddress (redeemScript : Bytes) (network : String) : Except PyExc Bytes :=
  addressFromH160 hashes base58 p2shPrefixes redeemScript network

/-- The body of `h160_from_p2pkh_address` and `h160_from_p2sh_address`. -/
def h160FromAddress (prefixes : List Bytes) (kind : String) (address : Text) (network : String) :
    Except PyExc Bytes := do
  let address := address.strip
  let payload ← base58.b58decode address.toBytes (some 21)
  let i ← listIndex (payload.take 1) prefixes
  if (← getItem networks i) ≠ network then
    throw (.valueError (address.format ++ " is a " ++ kind ++ " address for " ++
      "a network other than \x27" ++ network ++ "\x27"))
  pure (payload.drop 1)

/-- `h160_from_p2pkh_address`. -/
def h160FromP2pkhAddress (address : Text) (network : String) : Except PyExc Bytes :=
  h160FromAddress base58 p2pkhPrefixes "p2pkh" address network

/-- `h160_from_p2sh_address`. -/
def h160FromP2shAddress (address : Text) (network : String) : Except PyExc Bytes :=
  h160FromAddress base58 p2shPrefixes "p2sh" address network

/-- `p2pkh_address_from_wif`. `octets_from_point(ec, Q, compressed)` of
`btclib.utils`, not among the sources, is the parameter `octetsFromPoint`; the
curve `_CURVES[network_index]` is secp256k1 for every network. -/
def p2pkhAddressFromWif (octetsFromPoint : P → Bool → Except PyExc Bytes) (wif : Text) :
    Except PyExc Bytes := do
  let wif := wif.strip
  let (prv, compressed, network) ← prvkeyFromWif ec base58 wif
  let _ ← listIndex network networks
  let pub := ec.mult prv
  let o ← octetsFromPoint pub compressed
  p2pkhAddress hashes base58 o network

/-! ## WIF -/

/-- The WIF of a key: the network's prefix, the key's octets and the
compression flag's suffix. -/
theorem wifFromPrvkey_eq {prvkey : PrvKey} {o : Bytes} {v : Int}
    (hkey : prvkey.octetsAndValue = .ok (o, v)) (hv : 0 < v ∧ v < ec.n) (compressed : Bool)
    {network : String} (hn : network ∈ networks) :
    wifFromPrvkey ec base58 prvkey compressed network = .ok (base58.b58encode
      (wifPrefixes.getD (networks.indexOf network) [] ++ o ++ if compressed then [0x01] else [])) := by
  have hi : networks.indexOf network < wifPrefixes.length := indexOf_lt_length_of_mem hn
  simp [wifFromPrvkey, listIndex_eq_indexOf hn, getItem_of_lt hi, hkey, hv,
    List.getD_eq_getElem?_getD, List.getElem?_eq_getElem hi]

/-- The size test reads back the flag and the scalar of a one-byte prefix, a
32-byte key and the compression suffix. -/
theorem wifPayloadKey_toBytesBE {pre : Bytes} (hpre : pre.length = 1) {q : Nat}
    (hq : q < 256 ^ 32) (compressed : Bool) :
    wifPayloadKey (pre ++ (toBytesBE 32 q ++ if compressed then [0x01] else [])) =
      .ok (compressed, q) := by
  cases compressed <;>
    simp [wifPayloadKey, nsize, hpre, List.drop_left' hpre, fromBytesBE_toBytesBE_of_lt hq]

/-- Conversely, what the size test accepts is a one-byte prefix, the 32-byte
encoding of the scalar it read, and the compression suffix. -/
theorem wifPayloadKey_eq_ok {payload : Bytes} {c : Bool} {q : Nat}
    (h : wifPayloadKey payload = .ok (c, q)) :
    payload = payload.take 1 ++ (toBytesBE 32 q ++ if c then [0x01] else []) := by
  unfold wifPayloadKey at h
  split_ifs at h with h34 hlast h33 <;> cases h
  · -- 34 bytes ending in `0x01`
    obtain ⟨init, rfl⟩ := List.getLast?_eq_some_iff.1 (not_not.1 hlast)
    simp only [List.length_append, List.length_singleton, nsize] at h34
    rw [toBytesBE_eq_of_fromBytesBE (by simp; omega) rfl]
    simp [List.take_append_of_le_length (show 1 ≤ init.length by omega),
      List.drop_append_of_le_length (show 1 ≤ init.length by omega), ← List.drop_one,
      ← List.append_assoc]
  · -- 33 bytes
    rw [toBytesBE_eq_of_fromBytesBE (by simp [h33, nsize]) rfl]
    simp [← List.drop_one]

/-- Decoding the WIF payload of a 32-byte key under a WIF prefix. -/
theorem prvkeyFromWif_b58encode {pre : Bytes} (hpre : pre ∈ wifPrefixes) {q : Nat}
    (hq : 0 < q ∧ q < ec.n) (compressed : Bool) :
    prvkeyFromWif ec base58 (.bytes (base58.b58encode
        (pre ++ toBytesBE 32 q ++ if compressed then [0x01] else []))) =
      .ok (q, compressed, networks.getD (wifPrefixes.indexOf pre) "") := by
  have hlen : pre.length = 1 := by revert pre; decide
  have hi : wifPrefixes.indexOf pre < networks.length := indexOf_lt_length_of_mem hpre
  simp only [prvkeyFromWif, Text.strip, Text.toBytes, base58.b58decode_b58encode, ok_bind,
    List.append_assoc, List.take_left' hlen, listIndex_eq_indexOf hpre,
    wifPayloadKey_toBytesBE hlen (ec.lt_of_lt_n hq.2), hq, not_true_eq_false, if_false,
    getItem_of_lt hi, List.getD_eq_getElem?_getD, List.getElem?_eq_getElem hi]
  rfl

theorem wifPrefix_mem {network : String} (hn : network ∈ networks) :
    wifPrefixes.getD (networks.indexOf network) [] ∈ wifPrefixes := by
  have hi : networks.indexOf network < wifPrefixes.length := indexOf_lt_length_of_mem hn
  rw [List.getD_eq_getElem?_getD, List.getElem?_eq_getElem hi]
  exact List.getElem_mem hi

/-- The network `prvkey_from_wif` reports for a prefix is one whose WIF
prefix is that prefix. -/
theorem wifPrefix_of_listIndex {pre : Bytes} {i : Nat} {net : String}
    (hi : listIndex pre wifPrefixes = .ok i) (hn : getItem networks i = .ok net) :
    net ∈ networks ∧ wifPrefixes.getD (networks.indexOf net) [] = pre := by
  simp only [wifPrefixes, listIndex] at hi
  split_ifs at hi with h1 h2 <;> simp [Except.map] at hi <;> subst hi <;> cases hn <;>
    exact ⟨by decide, by subst_vars; rfl⟩

/-- A key whose octets are its 32-byte encoding comes back from its WIF, with
its compression flag and the first network of its prefix. -/
theorem prvkeyFromWif_wifFromPrvkey {prvkey : PrvKey} {q : Nat}
    (hkey : prvkey.octetsAndValue = .ok (toBytesBE 32 q, q)) (hq : 0 < q ∧ q < ec.n)
    (compressed : Bool) {network : String} (hn : network ∈ networks) :
    (wifFromPrvkey ec base58 prvkey compressed network >>= fun w =>
      prvkeyFromWif ec base58 (.bytes w)) = .ok (q, compressed, firstNetwork wifPrefixes network) := by
  rw [wifFromPrvkey_eq ec base58 hkey ⟨by omega, by omega⟩ compressed hn, ok_bind,
    prvkeyFromWif_b58encode ec base58 (wifPrefix_mem hn) hq]
  rfl

/-- Every WIF that `prvkey_from_wif` accepts is canonical: `wif_from_prvkey`
of the key, flag and network it returns encodes exactly the payload it
decoded. The prefix comes back through the network's index, the scalar through
its 32-byte encoding, and the flag through the payload's size. -/
theorem wifFromPrvkey_prvkeyFromWif {wif : Text} {q : Nat} {c : Bool} {net : String}
    (h : prvkeyFromWif ec base58 wif = .ok (q, c, net)) :
    ∃ payload, base58.b58decode wif.strip.toBytes none = .ok payload ∧
      wifFromPrvkey ec base58 (.int q) c net = .ok (base58.b58encode payload) := by
  simp only [prvkeyFromWif, bind_eq_ok] at h
  obtain ⟨payload, hp, i, hi, ⟨c', prv⟩, hcp, h⟩ := h
  by_cases hr : 0 < prv ∧ prv < ec.n
  · obtain ⟨network, hn, h⟩ := bind_eq_ok.1 (by simpa [hr] using h)
    simp only [pure_eq_ok, Except.ok.injEq, Prod.mk.injEq] at h
    obtain ⟨rfl, rfl, rfl⟩ := h
    obtain ⟨hmem, hpre⟩ := wifPrefix_of_listIndex hi hn
    refine ⟨payload, hp, ?_⟩
    rw [wifFromPrvkey_eq ec base58 (octetsAndValue_int (ec.lt_of_lt_n hr.2))
      ⟨by exact_mod_cast hr.1, by exact_mod_cast hr.2⟩ _ hmem, hpre, List.append_assoc,
      ← wifPayloadKey_eq_ok hcp]
  · simp [hr] at h

theorem wifFromPrvkey_prvkeyFromWif_at_testnet :
    prvkeyFromWif modSevenCurve letterBase58
        (.bytes (letterBase58.b58encode (0xef :: toBytesBE 32 3))) = .ok (3, false, "testnet") ∧
      ∃ payload, letterBase58.b58decode
          (Text.bytes (letterBase58.b58encode (0xef :: toBytesBE 32 3))).strip.toBytes none =
          .ok payload ∧
        wifFromPrvkey modSevenCurve letterBase58 (.int 3) false "testnet" =
          .ok (letterBase58.b58encode payload) := by
  have h : prvkeyFromWif modSevenCurve letterBase58
      (.bytes (letterBase58.b58encode (0xef :: toBytesBE 32 3))) = .ok (3, false, "testnet") := by
    decide
  exact ⟨h, wifFromPrvkey_prvkeyFromWif modSevenCurve letterBase58 h⟩

/-- What `prvkey_from_wif` accepted had 34 bytes if it reports a compressed key,
and 33 otherwise. -/
theorem length_of_prvkeyFromWif {wif : Text} {q : Nat} {c : Bool} {net : String}
    (h : prvkeyFromWif ec base58 wif = .ok (q, c, net)) :
    ∃ payload, base58.b58decode wif.strip.toBytes none = .ok payload ∧
      payload.length = if c then nsize + 2 else nsize + 1 := by
  simp only [prvkeyFromWif, bind_eq_ok] at h
  obtain ⟨payload, hp, i, -, ⟨c', prv⟩, hcp, h⟩ := h
  have hc : c' = c := by
    by_cases hr : 0 < prv ∧ prv < ec.n
    · obtain ⟨network, -, h⟩ := bind_eq_ok.1 (by simpa [hr] using h)
      simp only [pure_eq_ok, Except.ok.injEq, Prod.mk.injEq] at h
      exact h.2.1
    · simp [hr] at h
  exact ⟨payload, hp, hc ▸ length_of_wifPayloadKey hcp⟩

/-- A key given as octets comes back from its WIF only if it has 32 bytes:
unlike the `int` path, the octets path does not pad to `ec.nsize`. -/
theorem length_of_wif_roundtrip {b : Bytes} {compressed : Bool} {network : String} {q : Nat}
    {net : String}
    (h : (wifFromPrvkey ec base58 (.octets b) compressed network >>= fun w =>
      prvkeyFromWif ec base58 (.bytes w)) = .ok (q, compressed, net)) : b.length = 32 := by
  obtain ⟨w, hw, hr⟩ := bind_eq_ok.1 h
  have hn : network ∈ networks := by
    by_contra hn
    obtain ⟨e, he⟩ := raises_listIndex_of_not_mem networks hn
    simp [wifFromPrvkey, he] at hw
  have hv : 0 < (fromBytesBE b : Int) ∧ (fromBytesBE b : Int) < ec.n := by
    by_contra hv
    have hi : networks.indexOf network < wifPrefixes.length := indexOf_lt_length_of_mem hn
    simp only [wifFromPrvkey, listIndex_eq_indexOf hn, getItem_of_lt hi, PrvKey.octetsAndValue,
      ok_bind, pure_eq_ok, hv, not_false_eq_true, if_true, throw_eq_error, error_bind] at hw
    cases hw
  rw [wifFromPrvkey_eq ec base58
    (show (PrvKey.octets b).octetsAndValue = .ok (b, fromBytesBE b) from rfl) hv compressed hn,
    Except.ok.injEq] at hw
  subst hw
  obtain ⟨payload, hp, hl⟩ := length_of_prvkeyFromWif ec base58 hr
  simp only [Text.strip, Text.toBytes, base58.b58decode_b58encode, Except.ok.injEq] at hp
  have hpre : ∀ p ∈ wifPrefixes, p.length = 1 := by decide
  subst hp
  have hp1 := hpre _ (wifPrefix_mem hn)
  cases compressed <;> simp only [List.length_append, hp1, nsize, Bool.false_eq_true,
    if_false, if_true, List.length_nil, List.length_singleton] at hl <;> omega

/-- The one-byte key `b"\x01"` (`q = 1`) does not come back from its WIF: the
payload has three bytes, a size `prvkey_from_wif` rejects. -/
theorem prvkeyFromWif_wifFromPrvkey_one_byte (hn : 1 < ec.n) :
    Raises (wifFromPrvkey ec base58 (.octets [1]) true "mainnet" >>= fun w =>
      prvkeyFromWif ec base58 (.bytes w)) := by
  rw [wifFromPrvkey_eq ec base58 (show (PrvKey.octets [1]).octetsAndValue = .ok ([1], 1) from rfl)
    ⟨by norm_num, by exact_mod_cast hn⟩ true (by decide), ok_bind]
  exact ⟨_, by simp [prvkeyFromWif, wifPayloadKey, Text.strip, Text.toBytes,
    base58.b58decode_b58encode, listIndex, wifPrefixes, networks, nsize]; rfl⟩

theorem prvkeyFromWif_wifFromPrvkey_one_byte_mod_seven :
    1 < modSevenCurve.n ∧
      Raises (wifFromPrvkey modSevenCurve letterBase58 (.octets [1]) true "mainnet" >>= fun w =>
        prvkeyFromWif modSevenCurve letterBase58 (.bytes w)) :=
  ⟨by decide, prvkeyFromWif_wifFromPrvkey_one_byte modSevenCurve letterBase58 (by decide)⟩

end Codec

section Codec

variable {P : Type} [AddCommGroup P] (ec : Secp P) (hashes : Hashes) (base58 : Base58)

/-! ## Addresses -/

/-- The address that `p2pkh_address_from_wif` computes from the WIF of a key is
the P2PKH address of the key's public key, in the encoding the WIF's flag asks,
for the network the WIF was written for: a regtest WIF reads back as testnet,
whose P2PKH prefix is regtest's. -/
theorem p2pkhAddressFromWif_wifFromPrvkey (octetsFromPoint : P → Bool → Except PyExc Bytes)
    {prvkey : PrvKey} {q : Nat} (hkey : prvkey.octetsAndValue = .ok (toBytesBE 32 q, q))
    (hq : 0 < q ∧ q < ec.n) (compressed : Bool) {network : String} (hn : network ∈ networks) :
    (wifFromPrvkey ec base58 prvkey compressed network >>= fun w =>
      p2pkhAddressFromWif ec hashes base58 octetsFromPoint (.bytes w)) =
      (octetsFromPoint (ec.mult q) compressed >>= fun o =>
        p2pkhAddress hashes base58 o network) := by
  rw [wifFromPrvkey_eq ec base58 hkey ⟨by omega, by omega⟩ compressed hn, ok_bind]
  have hw := prvkeyFromWif_b58encode ec base58 (wifPrefix_mem hn) hq compressed
  simp only [p2pkhAddressFromWif, Text.strip, hw, ok_bind]
  simp only [networks, List.mem_cons, List.not_mem_nil, or_false] at hn
  rcases hn with rfl | rfl | rfl <;> rfl

theorem p2pkhAddressFromWif_wifFromPrvkey_at_regtest :
    (PrvKey.int 1).octetsAndValue = .ok (toBytesBE 32 1, 1) ∧ (0 < 1 ∧ 1 < modSevenCurve.n) ∧
      "regtest" ∈ networks ∧
      (wifFromPrvkey modSevenCurve letterBase58 (.int 1) true "regtest" >>= fun w =>
        p2pkhAddressFromWif modSevenCurve paddingHashes letterBase58
          (fun Q _ => modSevenCurve.bytesFromPoint Q) (.bytes w)) =
        (modSevenCurve.bytesFromPoint (modSevenCurve.mult 1) >>= fun o =>
          p2pkhAddress paddingHashes letterBase58 o "regtest") :=
  ⟨octetsAndValue_int (by norm_num), by decide, by decide,
    p2pkhAddressFromWif_wifFromPrvkey modSevenCurve paddingHashes letterBase58 _
      (octetsAndValue_int (by norm_num)) (by decide) true (by decide)⟩

/-- Encoding `x` for a network and decoding the address for the same network:
the decoder's `list.index` lands on the first network with the network's
prefix, and the result is `h160(x)` exactly when that network is the one asked. -/
theorem addressFromH160_bind_h160FromAddress {prefixes : List Bytes} (kind : String)
    (hlen : ∀ p ∈ prefixes, p.length = 1) (hsize : prefixes.length = networks.length)
    (x : Bytes) {network : String} (hn : network ∈ networks) :
    (addressFromH160 hashes base58 prefixes x network >>= fun a =>
      h160FromAddress base58 prefixes kind (.bytes a) network) =
      if firstNetwork prefixes network ≠ network then
        .error (.valueError ((Text.bytes (base58.b58encode
          (prefixes.getD (networks.indexOf network) [] ++ hashes.hash160 x))).format ++
          " is a " ++ kind ++ " address for " ++ "a network other than \x27" ++ network ++ "\x27"))
      else .ok (hashes.hash160 x) := by
  have hi : networks.indexOf network < prefixes.length := hsize ▸ indexOf_lt_length_of_mem hn
  have hpre := List.getElem_mem hi
  obtain ⟨c, hc⟩ := List.length_eq_one.1 (hlen _ hpre)
  have hj : prefixes.indexOf [c] < networks.length :=
    hsize ▸ indexOf_lt_length_of_mem (hc ▸ hpre)
  have hdec : base58.b58decode (base58.b58encode (c :: hashes.hash160 x)) (some 21) =
      .ok (c :: hashes.hash160 x) := by
    simpa [hashes.length_hash160] using base58.b58decode_b58encode_size (c :: hashes.hash160 x)
  simp only [addressFromH160, h160FromAddress, listIndex_eq_indexOf hn, getItem_of_lt hi,
    List.get_eq_getElem, hc, ok_bind, pure_eq_ok, Text.strip, Text.toBytes, List.singleton_append,
    hdec, List.take_succ_cons, List.take_zero, listIndex_eq_indexOf (hc ▸ hpre), getItem_of_lt hj,
    firstNetwork, List.getD_eq_getElem?_getD, List.getElem?_eq_getElem hi,
    List.getElem?_eq_getElem hj, Option.getD_some]
  split_ifs <;> rfl

/-- Decoding the address of `x` for a network gives back `h160(x)` when that
network is the first with its prefix, and raises otherwise. -/
theorem h160FromAddress_addressFromH160 {prefixes : List Bytes} (kind : String)
    (hlen : ∀ p ∈ prefixes, p.length = 1) (hsize : prefixes.length = networks.length)
    (x : Bytes) {network : String} (hn : network ∈ networks) :
    (firstNetwork prefixes network = network →
      (addressFromH160 hashes base58 prefixes x network >>= fun a =>
        h160FromAddress base58 prefixes kind (.bytes a) network) = .ok (hashes.hash160 x)) ∧
    (firstNetwork prefixes network ≠ network →
      Raises (addressFromH160 hashes base58 prefixes x network >>= fun a =>
        h160FromAddress base58 prefixes kind (.bytes a) network)) := by
  rw [addressFromH160_bind_h160FromAddress hashes base58 kind hlen hsize x hn]
  exact ⟨fun h => by rw [if_neg (not_not.2 h)], fun h => by rw [if_pos h]; exact ⟨_, rfl⟩⟩

/-- Address decoding undoes address encoding on mainnet and testnet. -/
theorem h160_roundtrip_mainnet_testnet (x : Bytes) {network : String}
    (hn : network ∈ ["mainnet", "testnet"]) :
    (p2pkhAddress hashes base58 x network >>= fun a =>
        h160FromP2pkhAddress base58 (.bytes a) network) = .ok (hashes.hash160 x) ∧
      (p2shAddress hashes base58 x network >>= fun a =>
        h160FromP2shAddress base58 (.bytes a) network) = .ok (hashes.hash160 x) := by
  have hn' : network ∈ networks := by rcases List.mem_cons.1 hn with rfl | h <;> simp_all [networks]
  have hfirst : ∀ prefixes ∈ [p2pkhPrefixes, p2shPrefixes], firstNetwork prefixes network = network := by
    rcases List.mem_cons.1 hn with rfl | h
    · decide
    · rw [List.mem_singleton.1 h]; decide
  exact ⟨(h160FromAddress_addressFromH160 hashes base58 "p2pkh" (by decide) rfl x hn').1
      (hfirst _ (by simp)),
    (h160FromAddress_addressFromH160 hashes base58 "p2sh" (by decide) rfl x hn').1
      (hfirst _ (by simp))⟩

/-- On regtest, for every `x`, both decoders reject the address that their
encoder makes: regtest's prefixes (`6f`, `c4`) are testnet's, `list.index`
finds testnet's position, and `'testnet' != 'regtest'`. -/
theorem h160_roundtrip_regtest_raises (x : Bytes) :
    (p2pkhAddress hashes base58 x "regtest" >>= fun a =>
        h160FromP2pkhAddress base58 (.bytes a) "regtest") =
      .error (.valueError ((Text.bytes (base58.b58encode (0x6f :: hashes.hash160 x))).format ++
        " is a p2pkh address for a network other than \x27regtest\x27")) ∧
      (p2shAddress hashes base58 x "regtest" >>= fun a =>
        h160FromP2shAddress base58 (.bytes a) "regtest") =
      .error (.valueError ((Text.bytes (base58.b58encode (0xc4 :: hashes.hash160 x))).format ++
        " is a p2sh address for a network other than \x27regtest\x27")) := by
  constructor
  · simp only [p2pkhAddress, h160FromP2pkhAddress]
    rw [addressFromH160_bind_h160FromAddress hashes base58 "p2pkh" (by decide) rfl x (by decide),
      if_pos (by decide)]
    simp only [String.append_assoc]
    rfl
  · simp only [p2shAddress, h160FromP2shAddress]
    rw [addressFromH160_bind_h160FromAddress hashes base58 "p2sh" (by decide) rfl x (by decide),
      if_pos (by decide)]
    simp only [String.append_assoc]
    rfl

theorem h160_roundtrip_regtest_raises_at_empty :
    (p2pkhAddress paddingHashes letterBase58 [] "regtest" >>= fun a =>
        h160FromP2pkhAddress letterBase58 (.bytes a) "regtest") =
      .error (.valueError ((Text.bytes (letterBase58.b58encode (0x6f :: paddingHashes.hash160 []))).format ++
        " is a p2pkh address for a network other than \x27regtest\x27")) ∧
      (p2shAddress paddingHashes letterBase58 [] "regtest" >>= fun a =>
        h160FromP2shAddress letterBase58 (.bytes a) "regtest") =
      .error (.valueError ((Text.bytes (letterBase58.b58encode (0xc4 :: paddingHashes.hash160 []))).format ++
        " is a p2sh address for a network other than \x27regtest\x27")) :=
  h160_roundtrip_regtest_raises paddingHashes letterBase58 []

end Codec

end WifAddress
end Btclib
