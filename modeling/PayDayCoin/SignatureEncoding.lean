import PayDayCoin.Script

/-!
# The encoding of signatures

`IsDERSignature` says which byte vectors are strict encodings of a signature: two positive numbers with no
needless padding, and nothing else but the byte of the hash type where there is one.
-/

namespace PayDayCoin

/-- One of the two numbers of a signature: its `len` bytes start at `start`, after a type byte and their length. -/
def isDERInteger (vchSig : List UInt8) (start len : ℕ) : Bool :=
  vchSig.getD (start - 2) 0 == 0x02 && len != 0 && vchSig.getD start 0 &&& 0x80 == 0 &&
    !(1 < len && vchSig.getD start 0 == 0 && vchSig.getD (start + 1) 0 &&& 0x80 == 0)

/-- `IsDERSignature`. -/
def isDERSignature (vchSig : List UInt8) (haveHashType : Bool) : Bool :=
  let nLenR := (vchSig.getD 3 0).toNat
  let nLenS := (vchSig.getD (5 + nLenR) 0).toNat
  9 ≤ vchSig.length && vchSig.length ≤ 73 && vchSig.getD 0 0 == 0x30 &&
    (vchSig.getD 1 0).toNat == vchSig.length - (if haveHashType then 3 else 2) && 5 + nLenR < vchSig.length &&
    nLenR + nLenS + (if haveHashType then 7 else 6) == vchSig.length && isDERInteger vchSig 4 nLenR &&
    isDERInteger vchSig (6 + nLenR) nLenS

end PayDayCoin
