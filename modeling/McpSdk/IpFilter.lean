import McpSdk.SecurityPolicy
import McpSdk.JsonValues

/-!
# The IP filter

`ip_filter.hh`. Addresses and masks are held in network byte order there and in host order
here; the byte swap commutes with the bitwise operations and comparisons the filter makes.
`inet_pton` accepts exactly strict dotted-decimal addresses, up to a NUL character, where the C
string ends.
-/

namespace McpSdk
open CppStandardLibrary

/-- One octet of a dotted-decimal address: up to 255, without a leading zero. -/
def octet (s : Str) : Option UInt32 :=
  if s ≠ [] ∧ s.all Char.isDigit ∧ (s.length = 1 ∨ s.head? ≠ some '0') ∧ decimalValue s ≤ 255 then
    some (UInt32.ofNat (decimalValue s))
  else none

/-- `inet_pton(AF_INET, s)`. -/
def inetPton (s : Str) : Option UInt32 :=
  match (s.splitOn '.').map octet with
  | [some a, some b, some c, some d] => some (a <<< 24 ||| b <<< 16 ||| c <<< 8 ||| d)
  | _ => none

/-- `std::stoi`; `none` when it throws. -/
def stoi (s : Str) : Option Int :=
  let t := s.dropWhile isSpace
  let (negative, u) := match t with
    | '-' :: u => (true, u)
    | '+' :: u => (false, u)
    | u => (false, u)
  let ds := u.takeWhile Char.isDigit
  let n : Int := if negative then -decimalValue ds else decimalValue ds
  if ds = [] then none
  else if n < -2 ^ 31 ∨ 2 ^ 31 ≤ n then none
  else some n

structure CidrEntry where
  network : UInt32
  mask : UInt32

structure IpFilter where
  whitelist : List CidrEntry := []
  blacklist : List CidrEntry := []
  defaultAllow : Bool := true

namespace IpFilter

/-- `_parse_ip`: 0 where the text is no address. -/
def parseIp (s : Str) : UInt32 := (inetPton (s.takeWhile (· ≠ '\x00'))).getD 0

/-- `_parse_cidr`. -/
def parseCidr (cidr : Str) : Except Exception CidrEntry :=
  let slash := find cidr '/' 0
  let ipPart := match slash with
    | none => cidr
    | some pos => substr cidr 0 pos
  let number := match slash with
    | none => some 32
    | some pos => stoi (cidr.drop (pos + 1))
  match number with
  | none => .error (.std "stoi".toList)
  | some pfx =>
      if pfx < 0 ∨ 32 < pfx then .error (.std ("Invalid CIDR prefix: ".toList ++ cidr))
      else
        let mask : UInt32 :=
          if pfx = 0 then 0 else (~~~0 : UInt32) <<< UInt32.ofNat (32 - pfx).toNat
        .ok ⟨parseIp ipPart &&& mask, mask⟩

/-- The constructor. -/
def ofConfig (cfg : IpFilterConfig) : Except Exception IpFilter := do
  let blacklist ← cfg.blacklist.mapM parseCidr
  let whitelist ← cfg.whitelist.mapM parseCidr
  return { whitelist := whitelist, blacklist := blacklist, defaultAllow := cfg.defaultAllow }

def CidrEntry.covers (e : CidrEntry) (ip : UInt32) : Bool := ip &&& e.mask == e.network

def isAllowed (f : IpFilter) (ipStr : Str) : Bool :=
  if ipStr.isEmpty then f.defaultAllow
  else
    let ip := parseIp ipStr
    if ip == 0 && ipStr != "0.0.0.0".toList then f.defaultAllow
    else if f.blacklist.any (fun e => CidrEntry.covers e ip) then false
    else if !f.whitelist.isEmpty then f.whitelist.any (fun e => CidrEntry.covers e ip)
    else f.defaultAllow

end IpFilter
end McpSdk
