import PayDayCoin.Masternode
import PayDayCoin.BigNum

/-!
# Network addresses

An address is sixteen bytes in network byte order, where an IPv4 address is one of the mapped range. `isRoutable` and
`getGroup` go by the range that it is in; the address manager spreads its entries over buckets by the groups.
-/

namespace PayDayCoin

/-- The sixteen bytes `ip` of a `CNetAddr`. -/
abbrev CNetAddr := List UInt8

namespace CNetAddr

variable (ip : CNetAddr)

def pchIPv4 : List UInt8 := [0, 0, 0, 0, 0, 0, 0, 0, 0, 0, 0xFF, 0xFF]
def pchOnionCat : List UInt8 := [0xFD, 0x87, 0xD8, 0x7E, 0xEB, 0x43]
def pchGarliCat : List UInt8 := [0xFD, 0x60, 0xDB, 0x4D, 0xDD, 0xB5]

/-- `GetByte`. -/
def getByte (n : ℕ) : UInt8 := ip.getD (15 - n) 0

def isIPv4 : Bool := ip.take 12 = pchIPv4

def isRFC1918 : Bool :=
  isIPv4 ip && (getByte ip 3 = 10 || (getByte ip 3 = 192 && getByte ip 2 = 168) ||
    (getByte ip 3 = 172 && (16 ≤ getByte ip 2 && getByte ip 2 ≤ 31)))

def isRFC3927 : Bool := isIPv4 ip && (getByte ip 3 = 169 && getByte ip 2 = 254)

def isRFC3849 : Bool := getByte ip 15 = 0x20 && getByte ip 14 = 0x01 && getByte ip 13 = 0x0D && getByte ip 12 = 0xB8

def isRFC3964 : Bool := getByte ip 15 = 0x20 && getByte ip 14 = 0x02

def isRFC6052 : Bool := ip.take 12 = [0, 0x64, 0xFF, 0x9B, 0, 0, 0, 0, 0, 0, 0, 0]

def isRFC4380 : Bool := getByte ip 15 = 0x20 && getByte ip 14 = 0x01 && getByte ip 13 = 0 && getByte ip 12 = 0

def isRFC4862 : Bool := ip.take 8 = [0xFE, 0x80, 0, 0, 0, 0, 0, 0]

def isRFC4193 : Bool := getByte ip 15 &&& 0xFE = 0xFC

def isRFC6145 : Bool := ip.take 12 = [0, 0, 0, 0, 0, 0, 0, 0, 0xFF, 0xFF, 0, 0]

def isRFC4843 : Bool :=
  getByte ip 15 = 0x20 && getByte ip 14 = 0x01 && getByte ip 13 = 0x00 && getByte ip 12 &&& 0xF0 = 0x10

def isTor : Bool := ip.take 6 = pchOnionCat

def isI2P : Bool := ip.take 6 = pchGarliCat

def isLocal : Bool :=
  (isIPv4 ip && (getByte ip 3 = 127 || getByte ip 3 = 0)) || ip = [0, 0, 0, 0, 0, 0, 0, 0, 0, 0, 0, 0, 0, 0, 0, 1]

def isValid : Bool :=
  if ip.take 9 = pchIPv4.drop 3 then false
  else if ip = List.replicate 16 0 then false
  else if isRFC3849 ip then false
  else if isIPv4 ip && (ip.drop 12 = [0xFF, 0xFF, 0xFF, 0xFF] || ip.drop 12 = [0, 0, 0, 0]) then false
  else true

def isRoutable : Bool :=
  isValid ip && !(isRFC1918 ip || isRFC3927 ip || isRFC4862 ip || (isRFC4193 ip && !isTor ip && !isI2P ip) ||
    isRFC4843 ip || isLocal ip)

def NET_UNROUTABLE : UInt8 := 0
def NET_IPV4 : UInt8 := 1
def NET_IPV6 : UInt8 := 2
def NET_TOR : UInt8 := 3
def NET_I2P : UInt8 := 4

/-- The class of a group, and so many bits of an address. -/
def groupBytes (nClass : UInt8) (nStartByte nBits : ℕ) : List UInt8 :=
  nClass :: (List.range (nBits / 8)).map (fun i => getByte ip (15 - (nStartByte + i))) ++
    if nBits % 8 = 0 then []
    else [getByte ip (15 - (nStartByte + nBits / 8)) ||| UInt8.ofNat (2 ^ (nBits % 8) - 1)]

/-- `GetGroup`. -/
def getGroup : List UInt8 :=
  let nClass := if isLocal ip then 255 else NET_IPV6
  let nBits := if isLocal ip then 0 else 16
  if !isRoutable ip then groupBytes ip NET_UNROUTABLE 0 0
  else if isIPv4 ip || isRFC6145 ip || isRFC6052 ip then groupBytes ip NET_IPV4 12 nBits
  else if isRFC3964 ip then groupBytes ip NET_IPV4 2 nBits
  else if isRFC4380 ip then [NET_IPV4, getByte ip 3 ^^^ 0xFF, getByte ip 2 ^^^ 0xFF]
  else if isTor ip then groupBytes ip NET_TOR 6 4
  else if isI2P ip then groupBytes ip NET_I2P 6 4
  else if getByte ip 15 = 0x20 && getByte ip 14 = 0x01 && getByte ip 13 = 0x04 && getByte ip 12 = 0x70 then
    groupBytes ip nClass 0 36
  else groupBytes ip nClass 0 32

/-- 93.184.216.34 is in the group of 93.184. -/
example : getGroup (pchIPv4 ++ [93, 184, 216, 34]) = [NET_IPV4, 93, 184] := by decide

end CNetAddr

/-- `CService::GetKey`. -/
def CService.getKey (addr : CService) : List UInt8 :=
  addr.ip ++ [UInt8.ofNat (addr.port.toNat / 0x100), UInt8.ofNat (addr.port.toNat % 0x100)]

end PayDayCoin
