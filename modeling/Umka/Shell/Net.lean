import Umka.Lib.Numeral

/-!
# `shell.c`: MAC addresses in and out

`net_eth_read_mac` prints the address of a device, `net_arp_add_entry` reads one into an ARP entry,
and `net_arp_get_entry` prints an entry. Each has a format string of its own: `%2.2x`, `%hhu` and
`%2.2hhu`.
-/

set_option autoImplicit false

namespace Umka.Shell

open Lib

/-- What a network system call returns. -/
structure F76Ret where
  eax : UInt32
  ebx : UInt32
deriving DecidableEq, Repr

/-- The six bytes of the address in the registers, as `net_eth_read_mac` takes them out. -/
def macOf (r : F76Ret) : List UInt8 :=
  [(r.ebx >>> 0).toUInt8, (r.ebx >>> 8).toUInt8, (r.eax >>> 0).toUInt8, (r.eax >>> 8).toUInt8,
   (r.eax >>> 16).toUInt8, (r.eax >>> 24).toUInt8]

/-- `%2.2x` for base 16, `%2.2hhu` for base 10. -/
def twoDigits (base : Nat) (b : UInt8) : List Char := (Nat.toDigits base b.toNat).leftpad 2 '0'

/-- Words with colons between them. -/
def colons : List (List Char) → List Char
  | [] => []
  | [w] => w
  | w :: ws => w ++ ':' :: colons ws

/-- `cmd_net_eth_read_mac` after its system call: what it prints. -/
def netEthReadMac (r : F76Ret) : List Char :=
  if r.eax = 0xffffffff then "status: fail\n".toList
  else colons ((macOf r).map (twoDigits 16)) ++ ['\n']

/-! ## `sscanf` -/

/-- `%hhu`: a decimal number, cut to a byte, and the text behind it. -/
def scanU8 (s : List Char) : Option (UInt8 × List Char) :=
  let (neg, ds) := unsign (s.dropWhile isSpace)
  let number := ds.takeWhile (digitIn 10)
  if number = [] then none
  else
    let m := valueIn 10 number
    let v := if 2 ^ 32 ≤ m then 2 ^ 32 - 1 else if neg then (2 ^ 32 - m) % 2 ^ 32 else m
    some (UInt8.ofNat v, ds.dropWhile (digitIn 10))

/-- `%hhu:%hhu:...`, `n` times: the bytes that are stored. -/
def scanU8s : Nat → List Char → List UInt8
  | 0, _ => []
  | n + 1, s =>
    match scanU8 s with
    | none => []
    | some (b, ':' :: rest) => b :: scanU8s n rest
    | some (b, _) => [b]

/-! ## ARP entries -/

/-- `arp_entry_t`; of `mac` only the bytes that have been stored. -/
structure ArpEntry where
  ip : UInt32
  mac : List UInt8
  status : UInt16
  ttl : UInt16
deriving DecidableEq, Repr

/-- `cmd_net_arp_add_entry` up to its system call: the device and the entry. -/
def netArpAddEntry (inetAddr : List Char → UInt32) (devNum addr mac status ttl : List Char) :
    UInt32 × ArpEntry :=
  (UInt32.ofNat (strtoul 32 devNum),
   { ip := inetAddr addr
     mac := scanU8s 6 mac
     status := UInt16.ofNat (strtoul 32 status)
     ttl := UInt16.ofNat (strtoul 32 ttl) })

def decimal (n : Nat) : List Char := Nat.toDigits 10 n

/-- The line about an entry, around the text of its address. -/
def arpLine (arpNum : UInt32) (arp : ArpEntry) (mac : List Char) : List Char :=
  "arp #".toList ++ decimal arpNum.toNat ++ ": IP ".toList
    ++ decimal (arp.ip >>> 0).toUInt8.toNat ++ '.' :: decimal (arp.ip >>> 8).toUInt8.toNat
    ++ '.' :: decimal (arp.ip >>> 16).toUInt8.toNat ++ '.' :: decimal (arp.ip >>> 24).toUInt8.toNat
    ++ ", mac ".toList ++ mac ++ ", status ".toList ++ decimal arp.status.toNat
    ++ ", ttl ".toList ++ decimal arp.ttl.toNat ++ ['\n']

/-- `cmd_net_arp_get_entry` after its system call: what it prints. -/
def netArpGetEntry (arpNum : UInt32) (r : F76Ret) (arp : ArpEntry) : List Char :=
  if r.eax = 0xffffffff then "status: fail\n".toList
  else arpLine arpNum arp (colons (arp.mac.map (twoDigits 10)))

end Umka.Shell
