import Btclib.Python
import Btclib.Collaborators
import Btclib.Network
import Btclib.Bip32.KeyData
import Btclib.Bip32.Ckd
import Btclib.Bip32.Derive
import Btclib.Bip32.Neuter
import Btclib.Bip32.Crack
import Btclib.Bip32.Seed
import Btclib.WifAddress
import Btclib.Blocks.Datetime
import Btclib.Blocks.Header
import Btclib.Blocks.Block
import Btclib.Blocks.Merkle
import Btclib.Blocks.Codec
import Btclib.Scripts.Rfc6979
import Btclib.Scripts.EcGroup
import Btclib.Scripts.Ecdsa
import Btclib.Scripts.Ecssa
