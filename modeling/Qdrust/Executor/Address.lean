import Mathlib.Algebra.Group.Nat.Defs
import Qdrust.Library.Checked

/-! The guard of outbound requests: which addresses a target or a proxy may have.
The address classes are those of the standard library, by octets and segments.
Against them stand the special-purpose blocks, by numeric prefixes. -/
namespace Qdrust.Executor
open Library

/-- The four octets of an IPv4 address. -/
structure Ipv4 where
  a : UInt8
  b : UInt8
  c : UInt8
  d : UInt8
  deriving DecidableEq

/-- The eight segments of an IPv6 address. -/
@[ext] structure Ipv6 where
  s0 : UInt16
  s1 : UInt16
  s2 : UInt16
  s3 : UInt16
  s4 : UInt16
  s5 : UInt16
  s6 : UInt16
  s7 : UInt16
  deriving DecidableEq

inductive IpAddr where
  | v4 (ip : Ipv4)
  | v6 (ip : Ipv6)
  deriving DecidableEq

namespace Ipv4

def isUnspecified (ip : Ipv4) : Bool := ip.a == 0 && ip.b == 0 && ip.c == 0 && ip.d == 0

def isLoopback (ip : Ipv4) : Bool := ip.a == 127

def isPrivate (ip : Ipv4) : Bool :=
  ip.a == 10 || (ip.a == 172 && 16 ≤ ip.b && ip.b ≤ 31) || (ip.a == 192 && ip.b == 168)

def isLinkLocal (ip : Ipv4) : Bool := ip.a == 169 && ip.b == 254

def isMulticast (ip : Ipv4) : Bool := 224 ≤ ip.a && ip.a ≤ 239

def isBroadcast (ip : Ipv4) : Bool := ip.a == 255 && ip.b == 255 && ip.c == 255 && ip.d == 255

def isDocumentation (ip : Ipv4) : Bool :=
  (ip.a == 192 && ip.b == 0 && ip.c == 2) || (ip.a == 198 && ip.b == 51 && ip.c == 100) ||
    (ip.a == 203 && ip.b == 0 && ip.c == 113)

/-- The address as a number. -/
def value (ip : Ipv4) : Nat := ((ip.a.toNat * 256 + ip.b.toNat) * 256 + ip.c.toNat) * 256 + ip.d.toNat

/-- `::ffff:a.b.c.d`. -/
def toMapped (ip : Ipv4) : Ipv6 :=
  ⟨0,0,0,0,0,0xffff,ip.a.toUInt16 * 256 + ip.b.toUInt16,ip.c.toUInt16 * 256 + ip.d.toUInt16⟩

end Ipv4

namespace Ipv6

def isUnspecified (ip : Ipv6) : Bool := ip == ⟨0,0,0,0,0,0,0,0⟩

def isLoopback (ip : Ipv6) : Bool := ip == ⟨0,0,0,0,0,0,0,1⟩

def isMulticast (ip : Ipv6) : Bool := ip.s0 &&& 0xff00 == 0xff00

def isUniqueLocal (ip : Ipv6) : Bool := ip.s0 &&& 0xfe00 == 0xfc00

def isUnicastLinkLocal (ip : Ipv6) : Bool := ip.s0 &&& 0xffc0 == 0xfe80

/-- The address as a number. -/
def value (ip : Ipv6) : Nat :=
  ((((((ip.s0.toNat * 65536 + ip.s1.toNat) * 65536 + ip.s2.toNat) * 65536 + ip.s3.toNat) * 65536 +
    ip.s4.toNat) * 65536 + ip.s5.toNat) * 65536 + ip.s6.toNat) * 65536 + ip.s7.toNat

/-- The IPv4 address that is written in this form, if it is one. -/
def mapped (ip : Ipv6) : Option Ipv4 :=
  if ip.s0 = 0 ∧ ip.s1 = 0 ∧ ip.s2 = 0 ∧ ip.s3 = 0 ∧ ip.s4 = 0 ∧ ip.s5 = 0xffff then
    some ⟨(ip.s6 / 256).toUInt8,ip.s6.toUInt8,(ip.s7 / 256).toUInt8,ip.s7.toUInt8⟩
  else none

end Ipv6

def isPublicIp : IpAddr → Bool
  | .v4 ip => !(ip.isPrivate || ip.isLoopback || ip.isLinkLocal || ip.isBroadcast || ip.isDocumentation ||
      ip.isUnspecified || ip.isMulticast || ip.a == 0)
  | .v6 ip => !(ip.isLoopback || ip.isUnspecified || ip.isMulticast || ip.isUniqueLocal || ip.isUnicastLinkLocal)

/-- All addresses that agree with `network` down to the last `host` bits. -/
structure Block where
  network : Nat
  host : Nat

def Block.contains (block : Block) (value : Nat) : Prop := value / 2 ^ block.host = block.network / 2 ^ block.host

instance (block : Block) (value : Nat) : Decidable (block.contains value) := instDecidableEqNat _ _

def block4 (a b c d : UInt8) (length : Nat) : Block := ⟨Ipv4.value ⟨a,b,c,d⟩,32 - length⟩

def block6 (s0 s1 s2 s3 s4 s5 s6 s7 : UInt16) (length : Nat) : Block :=
  ⟨Ipv6.value ⟨s0,s1,s2,s3,s4,s5,s6,s7⟩,128 - length⟩

/-- This network, private use, loopback, link local, documentation, multicast and
broadcast. -/
def blocked4 : List Block :=
  [block4 0 0 0 0 8,block4 10 0 0 0 8,block4 127 0 0 0 8,block4 169 254 0 0 16,block4 172 16 0 0 12,
    block4 192 168 0 0 16,block4 192 0 2 0 24,block4 198 51 100 0 24,block4 203 0 113 0 24,block4 224 0 0 0 4,
    block4 255 255 255 255 32]

/-- Shared address space, protocol assignments, benchmarking and reserved. -/
def overlooked4 : List Block := [block4 100 64 0 0 10,block4 192 0 0 0 24,block4 198 18 0 0 15,block4 240 0 0 0 4]

/-- Unspecified, loopback, unique local, link local and multicast. -/
def blocked6 : List Block :=
  [block6 0 0 0 0 0 0 0 0 128,block6 0 0 0 0 0 0 0 1 128,block6 0xfc00 0 0 0 0 0 0 0 7,
    block6 0xfe80 0 0 0 0 0 0 0 10,block6 0xff00 0 0 0 0 0 0 0 8]

/-- Discard only, documentation, local translation and site local. -/
def overlooked6 : List Block :=
  [block6 0x100 0 0 0 0 0 0 0 64,block6 0x2001 0xdb8 0 0 0 0 0 0 32,block6 0x64 0xff9b 1 0 0 0 0 0 48,
    block6 0xfec0 0 0 0 0 0 0 0 10]

def Within (blocks : List Block) (value : Nat) : Prop := ∃ block ∈ blocks, block.contains value

instance (blocks : List Block) (value : Nat) : Decidable (Within blocks value) := List.decidableBEx _ _

/-- The destination an address denotes is not a public one. -/
def NonPublic : IpAddr → Prop
  | .v4 ip => Within (blocked4 ++ overlooked4) ip.value
  | .v6 ip => match ip.mapped with
    | some inner => Within (blocked4 ++ overlooked4) inner.value
    | none => Within (blocked6 ++ overlooked6) ip.value

/-- What the guard does not know: four IPv4 blocks, four IPv6 blocks, and every
special block written in the IPv4-mapped form. -/
def Overlooked : IpAddr → Prop
  | .v4 ip => Within overlooked4 ip.value
  | .v6 ip => match ip.mapped with
    | some inner => Within (blocked4 ++ overlooked4) inner.value
    | none => Within overlooked6 ip.value

section Blocks

theorem octet_lt (x : UInt8) : x.toNat < 256 := x.toNat_lt

theorem segment_lt (x : UInt16) : x.toNat < 65536 := x.toNat_lt

theorem within_append (first rest : List Block) (value : Nat) :
    Within (first ++ rest) value ↔ Within first value ∨ Within rest value := by
  simp only [Within,List.mem_append]
  constructor
  · intro ⟨block,member,inside⟩
    rcases member with front | back
    · exact Or.inl ⟨block,front,inside⟩
    · exact Or.inr ⟨block,back,inside⟩
  · intro either
    rcases either with ⟨block,member,inside⟩ | ⟨block,member,inside⟩
    · exact ⟨block,Or.inl member,inside⟩
    · exact ⟨block,Or.inr member,inside⟩

variable (ip : Ipv4) (a b c d : UInt8)

theorem contains_8 : (block4 a 0 0 0 8).contains ip.value ↔ ip.a = a := by
  have := octet_lt ip.b
  have := octet_lt ip.c
  have := octet_lt ip.d
  simp only [Block.contains,block4,Ipv4.value,← UInt8.toNat_inj,UInt8.toNat_zero]
  omega

theorem contains_16 : (block4 a b 0 0 16).contains ip.value ↔ ip.a = a ∧ ip.b = b := by
  have := octet_lt ip.b
  have := octet_lt ip.c
  have := octet_lt ip.d
  have := octet_lt b
  simp only [Block.contains,block4,Ipv4.value,← UInt8.toNat_inj,UInt8.toNat_zero]
  omega

theorem contains_24 : (block4 a b c 0 24).contains ip.value ↔ ip.a = a ∧ ip.b = b ∧ ip.c = c := by
  have := octet_lt ip.b
  have := octet_lt ip.c
  have := octet_lt ip.d
  have := octet_lt b
  have := octet_lt c
  simp only [Block.contains,block4,Ipv4.value,← UInt8.toNat_inj,UInt8.toNat_zero]
  omega

theorem contains_32 : (block4 a b c d 32).contains ip.value ↔ ip.a = a ∧ ip.b = b ∧ ip.c = c ∧ ip.d = d := by
  have := octet_lt ip.b
  have := octet_lt ip.c
  have := octet_lt ip.d
  have := octet_lt b
  have := octet_lt c
  have := octet_lt d
  simp only [Block.contains,block4,Ipv4.value,← UInt8.toNat_inj,Nat.sub_self,Nat.pow_zero,Nat.div_one]
  omega

theorem contains_private : (block4 172 16 0 0 12).contains ip.value ↔ ip.a = 172 ∧ 16 ≤ ip.b ∧ ip.b ≤ 31 := by
  have := octet_lt ip.b
  have := octet_lt ip.c
  have := octet_lt ip.d
  simp only [Block.contains,block4,Ipv4.value,← UInt8.toNat_inj,UInt8.le_iff_toNat_le,UInt8.reduceToNat]
  omega

theorem contains_multicast : (block4 224 0 0 0 4).contains ip.value ↔ 224 ≤ ip.a ∧ ip.a ≤ 239 := by
  have := octet_lt ip.b
  have := octet_lt ip.c
  have := octet_lt ip.d
  simp only [Block.contains,block4,Ipv4.value,UInt8.le_iff_toNat_le,UInt8.reduceToNat]
  omega

/-- The classes of the guard are the blocked prefixes. -/
theorem isPublicIp_v4 : isPublicIp (.v4 ip) = false ↔ Within blocked4 ip.value := by
  simp only [Within,blocked4,List.mem_cons,List.not_mem_nil,or_false,exists_eq_or_imp,exists_eq_left,contains_8,
    contains_16,contains_24,contains_32,contains_private,contains_multicast]
  simp only [isPublicIp,Ipv4.isPrivate,Ipv4.isLoopback,Ipv4.isLinkLocal,Ipv4.isBroadcast,Ipv4.isDocumentation,
    Ipv4.isUnspecified,Ipv4.isMulticast,Bool.not_eq_false',Bool.or_eq_true,Bool.and_eq_true,beq_iff_eq,
    decide_eq_true_eq]
  constructor
  · intro blocked
    rcases blocked with ((((((private_ | loopback) | linkLocal) | broadcast) | documentation) | unspecified) |
      multicast) | network
    · rcases private_ with (ten | hundred) | two
      · simp [ten]
      · simp [hundred]
      · simp [two]
    · simp [loopback]
    · simp [linkLocal]
    · simp [broadcast]
    · rcases documentation with (one | two) | three
      · simp [one]
      · simp [two]
      · simp [three]
    · simp [unspecified]
    · simp [multicast]
    · simp [network]
  · intro blocked
    rcases blocked with h | h | h | h | h | h | h | h | h | h | h
    all_goals simp [h]

/-- A mask of `k` bits above the last `h` keeps just these bits. -/
theorem and_mask (x h k : Nat) : x &&& ((2 ^ k - 1) * 2 ^ h) = x / 2 ^ h % 2 ^ k * 2 ^ h := by
  apply Nat.eq_of_testBit_eq
  intro i
  rw [Nat.testBit_and,Nat.testBit_mul_two_pow,Nat.testBit_mul_two_pow,Nat.testBit_mod_two_pow,
    Nat.testBit_div_two_pow,Nat.testBit_two_pow_sub_one]
  by_cases low : h ≤ i
  · simp [low,Nat.sub_add_cancel low,Bool.and_comm]
  · simp [low]

theorem masked_eq (x mask network : UInt16) (h k : Nat) (shape : mask.toNat = (2 ^ k - 1) * 2 ^ h) :
    (x &&& mask == network) = true ↔ x.toNat / 2 ^ h % 2 ^ k * 2 ^ h = network.toNat := by
  rw [beq_iff_eq,← UInt16.toNat_inj,UInt16.toNat_and,shape,and_mask]

variable (wide : Ipv6)

/-- A prefix of at most sixteen bits is a prefix of the first segment. -/
theorem contains_segment (s : UInt16) (length : Nat) (short : length ≤ 16) :
    (block6 s 0 0 0 0 0 0 0 length).contains wide.value ↔
      wide.s0.toNat / 2 ^ (16 - length) = s.toNat / 2 ^ (16 - length) := by
  have split : 2 ^ (128 - length) = 65536 ^ 7 * 2 ^ (16 - length) := by
    have power : 2 ^ 112 = 65536 ^ 7 := by decide
    rw [show 128 - length = 112 + (16 - length) by omega,Nat.pow_add,power]
  have first (ip : Ipv6) : ip.value / 65536 ^ 7 = ip.s0.toNat := by
    have := segment_lt ip.s1
    have := segment_lt ip.s2
    have := segment_lt ip.s3
    have := segment_lt ip.s4
    have := segment_lt ip.s5
    have := segment_lt ip.s6
    have := segment_lt ip.s7
    simp only [Ipv6.value]
    omega
  rw [Block.contains,block6,split,← Nat.div_div_eq_div_mul,← Nat.div_div_eq_div_mul,first,first]

theorem contains_128 (other : Ipv6) :
    (block6 other.s0 other.s1 other.s2 other.s3 other.s4 other.s5 other.s6 other.s7 128).contains wide.value ↔
      wide = other := by
  have bounds (ip : Ipv6) := And.intro (segment_lt ip.s1) (And.intro (segment_lt ip.s2) (And.intro (segment_lt ip.s3)
    (And.intro (segment_lt ip.s4) (And.intro (segment_lt ip.s5) (And.intro (segment_lt ip.s6) (segment_lt ip.s7))))))
  have left := bounds wide
  have right := bounds other
  obtain ⟨s0,s1,s2,s3,s4,s5,s6,s7⟩ := wide
  obtain ⟨t0,t1,t2,t3,t4,t5,t6,t7⟩ := other
  simp only [Block.contains,block6,Ipv6.value,Ipv6.mk.injEq,← UInt16.toNat_inj,Nat.sub_self,Nat.pow_zero,
    Nat.div_one] at *
  omega

theorem isPublicIp_v6 : isPublicIp (.v6 wide) = false ↔ Within blocked6 wide.value := by
  have unspecified := contains_128 wide ⟨0,0,0,0,0,0,0,0⟩
  have loopback := contains_128 wide ⟨0,0,0,0,0,0,0,1⟩
  have bound := segment_lt wide.s0
  have multicast := masked_eq wide.s0 0xff00 0xff00 8 8 (by decide)
  have uniqueLocal := masked_eq wide.s0 0xfe00 0xfc00 9 7 (by decide)
  have linkLocal := masked_eq wide.s0 0xffc0 0xfe80 6 10 (by decide)
  simp only [Within,blocked6,List.mem_cons,List.not_mem_nil,or_false,exists_eq_or_imp,exists_eq_left,unspecified,
    loopback,contains_segment wide _ 7 (by omega),contains_segment wide _ 8 (by omega),
    contains_segment wide _ 10 (by omega)]
  simp only [isPublicIp,Ipv6.isLoopback,Ipv6.isUnspecified,Ipv6.isMulticast,Ipv6.isUniqueLocal,
    Ipv6.isUnicastLinkLocal,Bool.not_eq_false',Bool.or_eq_true,multicast,uniqueLocal,linkLocal,beq_iff_eq,
    UInt16.reduceToNat]
  have ranges : (wide.s0.toNat / 2 ^ 8 % 2 ^ 8 * 2 ^ 8 = 65280 ↔ wide.s0.toNat / 2 ^ (16 - 8) = 65280 / 2 ^ (16 - 8)) ∧
      (wide.s0.toNat / 2 ^ 9 % 2 ^ 7 * 2 ^ 9 = 64512 ↔ wide.s0.toNat / 2 ^ (16 - 7) = 64512 / 2 ^ (16 - 7)) ∧
      (wide.s0.toNat / 2 ^ 6 % 2 ^ 10 * 2 ^ 6 = 65152 ↔ wide.s0.toNat / 2 ^ (16 - 10) = 65152 / 2 ^ (16 - 10)) := by
    omega
  rw [ranges.1,ranges.2.1,ranges.2.2]
  constructor
  · intro blocked
    rcases blocked with (((isLoopback | isUnspecified) | inMulticast) | inLocal) | inLink
    · exact Or.inr (Or.inl isLoopback)
    · exact Or.inl isUnspecified
    · exact Or.inr (Or.inr (Or.inr (Or.inr inMulticast)))
    · exact Or.inr (Or.inr (Or.inl inLocal))
    · exact Or.inr (Or.inr (Or.inr (Or.inl inLink)))
  · intro blocked
    rcases blocked with isUnspecified | isLoopback | inLocal | inLink | inMulticast
    · exact Or.inl (Or.inl (Or.inl (Or.inr isUnspecified)))
    · exact Or.inl (Or.inl (Or.inl (Or.inl isLoopback)))
    · exact Or.inl (Or.inr inLocal)
    · exact Or.inr inLink
    · exact Or.inl (Or.inl (Or.inr inMulticast))

/-- No blocked prefix reaches into the IPv4-mapped form. -/
theorem mapped_public {inner : Ipv4} (written : wide.mapped = some inner) : isPublicIp (.v6 wide) = true := by
  unfold Ipv6.mapped at written
  split at written
  · rename_i form
    simp [isPublicIp,Ipv6.isLoopback,Ipv6.isUnspecified,Ipv6.isMulticast,Ipv6.isUniqueLocal,
      Ipv6.isUnicastLinkLocal,Ipv6.ext_iff,form]
  · cases written

theorem mapped_toMapped (ip : Ipv4) : ip.toMapped.mapped = some ip := by
  obtain ⟨a,b,c,d⟩ := ip
  have := octet_lt a
  have := octet_lt b
  have := octet_lt c
  have := octet_lt d
  have high (x y : UInt8) : ((x.toUInt16 * 256 + y.toUInt16) / 256).toUInt8 = x := by
    rw [← UInt8.toNat_inj]
    have := octet_lt x
    have := octet_lt y
    simp
    omega
  have low (x y : UInt8) : (x.toUInt16 * 256 + y.toUInt16).toUInt8 = y := by
    rw [← UInt8.toNat_inj]
    have := octet_lt x
    have := octet_lt y
    simp
  simp [Ipv4.toMapped,Ipv6.mapped,high,low]

end Blocks

/-- The guard refuses a non-public destination unless it overlooks it. -/
theorem nonPublic_iff (ip : IpAddr) : NonPublic ip ↔ isPublicIp ip = false ∨ Overlooked ip := by
  cases ip with
  | v4 ip =>
    rw [isPublicIp_v4]
    exact within_append _ _ _
  | v6 ip =>
    cases written : ip.mapped with
    | some inner => simp [NonPublic,Overlooked,written,mapped_public ip written]
    | none =>
      rw [isPublicIp_v6]
      simp only [NonPublic,Overlooked,written]
      exact within_append _ _ _

/-- A URL as its parser delivers it, with the port it names or its scheme knows. -/
structure Url where
  scheme : String
  host : Option String
  port : Option Nat

/-- The parser of URLs and the resolver of host names. -/
structure NetworkEnv where
  parse : String → Option Url
  lookupHost : String → Nat → Option (List (IpAddr × Nat))

structure OutboundPolicy where
  allowPrivateNetwork : Bool
  proxy : Option String

/-- The texts in which the checks of a target and of a proxy differ. -/
structure GuardTexts where
  schemes : List String
  invalid : String
  scheme : String
  host : String
  port : String
  resolve : String
  empty : String

def targetTexts : GuardTexts where
  schemes := ["http","https"]
  invalid := "invalid rendered URL"
  scheme := "unsupported URL scheme"
  host := "URL host is missing"
  port := "URL port is missing"
  resolve := "cannot resolve request host"
  empty := "request host resolved to no addresses"

def proxyTexts : GuardTexts where
  schemes := ["http","https","socks5","socks5h"]
  invalid := "invalid proxy URL"
  scheme := "unsupported proxy scheme"
  host := "proxy host is missing"
  port := "proxy port is missing"
  resolve := "cannot resolve proxy host"
  empty := "proxy host resolved to no addresses"

/-- An address list passes when the switch is on or all of it is public. -/
def checkAddresses (allowPrivateNetwork : Bool) (addresses : List (IpAddr × Nat)) : Except String Unit :=
  ensure (allowPrivateNetwork || addresses.all fun address => isPublicIp address.1)
    "private or special-use network target is blocked"

def resolveChecked (env : NetworkEnv) (texts : GuardTexts) (url : String) (allowPrivateNetwork : Bool) :
    Except String (Url × String × List (IpAddr × Nat)) := do
  let parsed ← (env.parse url).elim (.error texts.invalid) .ok
  ensure (texts.schemes.contains parsed.scheme) texts.scheme
  let host ← parsed.host.elim (.error texts.host) .ok
  let port ← parsed.port.elim (.error texts.port) .ok
  let addresses ← (env.lookupHost host port).elim (.error texts.resolve) .ok
  ensure (!addresses.isEmpty) texts.empty
  checkAddresses allowPrivateNetwork addresses
  return (parsed,host,addresses)

def resolveTarget (env : NetworkEnv) (url : String) (allowPrivateNetwork : Bool) :
    Except String (Url × String × List (IpAddr × Nat)) := resolveChecked env targetTexts url allowPrivateNetwork

def classifyProxy (env : NetworkEnv) (proxy : String) (allowPrivateNetwork : Bool) :
    Except String (Url × String × List (IpAddr × Nat)) := resolveChecked env proxyTexts proxy allowPrivateNetwork

/-- Where a client may connect to: the pinned addresses of its target, or those of
its proxy, which resolves the target itself. -/
inductive Connection where
  | pinned (host : String) (addresses : List (IpAddr × Nat))
  | proxied (proxy : Url) (addresses : List (IpAddr × Nat))

def Connection.addresses : Connection → List (IpAddr × Nat)
  | .pinned _ addresses => addresses
  | .proxied _ addresses => addresses

def guardedClientForUrl (env : NetworkEnv) (url : String) (policy : OutboundPolicy) :
    Except String (List (IpAddr × Nat) × Connection) := do
  let (_,host,addresses) ← resolveTarget env url policy.allowPrivateNetwork
  match policy.proxy with
  | some proxy =>
    let (parsed,_,proxyAddresses) ← classifyProxy env proxy policy.allowPrivateNetwork
    return (addresses,.proxied parsed proxyAddresses)
  | none => return (addresses,.pinned host addresses)

/-- Both checks end in the same rule over the addresses. -/
theorem resolveChecked_ok {env : NetworkEnv} {texts : GuardTexts} {url : String} {allow : Bool}
    {parsed : Url} {host : String} {addresses : List (IpAddr × Nat)}
    (resolved : resolveChecked env texts url allow = .ok (parsed,host,addresses)) :
    checkAddresses allow addresses = .ok () := by
  unfold resolveChecked at resolved
  obtain ⟨_,_,resolved⟩ := bind_ok.mp resolved
  obtain ⟨_,resolved⟩ := check_ok.mp resolved
  obtain ⟨_,_,resolved⟩ := bind_ok.mp resolved
  obtain ⟨_,_,resolved⟩ := bind_ok.mp resolved
  obtain ⟨_,_,resolved⟩ := bind_ok.mp resolved
  obtain ⟨_,resolved⟩ := check_ok.mp resolved
  obtain ⟨checked,resolved⟩ := check_ok.mp resolved
  cases resolved
  exact checked

/-- The addresses of the target and those of the connection have passed the rule. -/
theorem guardedClient_ok {env : NetworkEnv} {url : String} {policy : OutboundPolicy}
    {target : List (IpAddr × Nat)} {connection : Connection}
    (granted : guardedClientForUrl env url policy = .ok (target,connection)) :
    checkAddresses policy.allowPrivateNetwork target = .ok () ∧
      checkAddresses policy.allowPrivateNetwork connection.addresses = .ok () := by
  unfold guardedClientForUrl at granted
  obtain ⟨⟨parsed,host,addresses⟩,resolved,granted⟩ := bind_ok.mp granted
  have targetChecked := resolveChecked_ok resolved
  cases proxied : policy.proxy with
  | none =>
    rw [proxied] at granted
    cases granted
    exact ⟨targetChecked,targetChecked⟩
  | some proxy =>
    rw [proxied] at granted
    obtain ⟨⟨proxyUrl,proxyHost,proxyAddresses⟩,classified,granted⟩ := bind_ok.mp granted
    cases granted
    exact ⟨targetChecked,resolveChecked_ok classified⟩

/-- While the private network is not allowed, a list that passes has no non-public
destination exactly when it has none the guard overlooks. -/
theorem checkAddresses_iff {addresses : List (IpAddr × Nat)} (checked : checkAddresses false addresses = .ok ()) :
    (∀ address ∈ addresses, ¬NonPublic address.1) ↔ ∀ address ∈ addresses, ¬Overlooked address.1 := by
  have all : ∀ address ∈ addresses, isPublicIp address.1 = true := by
    simpa [checkAddresses] using checked
  refine forall_congr' fun address => forall_congr' fun member => ?_
  rw [nonPublic_iff,all address member]
  simp

/-- A parser and a resolver for one host, which has one address. -/
def singleHost (ip : IpAddr) : NetworkEnv where
  parse := fun url => if url = "http://host.invalid/" then some ⟨"http",some "host.invalid",some 80⟩ else none
  lookupHost := fun host port => if host = "host.invalid" then some [(ip,port)] else none

end Qdrust.Executor
