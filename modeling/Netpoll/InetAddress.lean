import Netpoll.IntFraming

/-!
# `InetAddress`

The address class of `net/inet_address.{h,cc}`. A `sockaddr_in` and a
`sockaddr_in6` lie over each other in a union: both have the family and the
port first, `sin_addr` lies over `sin6_flowinfo`, and the padding of the
`sockaddr_in` over the first half of `sin6_addr`. The union is modelled as
the larger structure; writing the smaller one leaves what lies behind it.

The family is recorded a second time in `m_isIpv6`, which `isLoopbackIp`
reads, while `isIntranetIp` reads the union. `Build` lists the entry points
that record it. All but one keep the two equal: the constructor that takes a
`sockaddr_in6` sets the flag whatever the structure's family is, and
`getsockname` fills such a structure for a socket of either family.
-/

namespace Netpoll

def AF_INET : UInt16 := 2

def AF_INET6 : UInt16 := 10

/-- `INADDR_ANY` -/
def kInaddrAny : UInt32 := 0

/-- `INADDR_LOOPBACK` -/
def kInaddrLoopback : UInt32 := 0x7f000001

/-- `in6_addr`, as its four words in memory. -/
structure In6Addr where
  w0 : UInt32
  w1 : UInt32
  w2 : UInt32
  w3 : UInt32
  deriving DecidableEq, Repr

structure SockAddrIn where
  family : UInt16
  port : UInt16
  addr : UInt32
  zero : UInt32 × UInt32
  deriving DecidableEq, Repr

structure SockAddrIn6 where
  family : UInt16
  port : UInt16
  flowinfo : UInt32
  addr : In6Addr
  scopeId : UInt32
  deriving DecidableEq, Repr

/-- `memset` to 0. -/
def SockAddrIn.blank : SockAddrIn := ⟨0, 0, 0, (0, 0)⟩

def SockAddrIn6.blank : SockAddrIn6 := ⟨0, 0, 0, ⟨0, 0, 0, 0⟩, 0⟩

/-- The union with its smaller member written. -/
def SockAddrIn6.overlay (u : SockAddrIn6) (a : SockAddrIn) : SockAddrIn6 :=
  ⟨a.family, a.port, a.addr, ⟨a.zero.1, a.zero.2, u.addr.w2, u.addr.w3⟩, u.scopeId⟩

structure InetAddress where
  addr6 : SockAddrIn6
  mIsIpv6 : Bool
  isUnspecified : Bool
  deriving DecidableEq, Repr

/-- What the address is computed with: the byte order of the host, and
`inet_pton` for either family. -/
structure NetHost where
  order : ByteOrder
  pton4 : List Byte → Option UInt32
  pton6 : List Byte → Option In6Addr

namespace InetAddress

variable (h : NetHost)

/-! ## The entry points

`junk` is what the union holds before its constructor runs. -/

/-- `InetAddress(port, loopbackOnly, ipv6)` -/
def ofPort (junk : SockAddrIn6) (port : UInt16) (loopbackOnly ipv6 : Bool) : InetAddress :=
  if ipv6 then
    let ip : In6Addr := if loopbackOnly then ⟨0, 0, 0, h.order.htonl 1⟩ else ⟨0, 0, 0, 0⟩
    { addr6 := { SockAddrIn6.blank with
        family := AF_INET6
        addr := ip
        port := h.order.htons port }
      mIsIpv6 := ipv6
      isUnspecified := false }
  else
    let ip := if loopbackOnly then kInaddrLoopback else kInaddrAny
    { addr6 := junk.overlay { SockAddrIn.blank with
        family := AF_INET
        addr := h.order.htonl ip
        port := h.order.htons port }
      mIsIpv6 := ipv6
      isUnspecified := false }

/-- `InetAddress(ip, port, ipv6)`; a text that is no address leaves the
object unspecified. -/
def ofIp (junk : SockAddrIn6) (ip : List Byte) (port : UInt16) (ipv6 : Bool) : InetAddress :=
  if ipv6 then
    let addr6 := { SockAddrIn6.blank with family := AF_INET6, port := h.order.htons port }
    match h.pton6 ip with
    | none => { addr6, mIsIpv6 := ipv6, isUnspecified := true }
    | some addr => { addr6 := { addr6 with addr }, mIsIpv6 := ipv6, isUnspecified := false }
  else
    let addr4 := { SockAddrIn.blank with family := AF_INET, port := h.order.htons port }
    match h.pton4 ip with
    | none => { addr6 := junk.overlay addr4, mIsIpv6 := ipv6, isUnspecified := true }
    | some addr =>
        { addr6 := junk.overlay { addr4 with addr }, mIsIpv6 := ipv6, isUnspecified := false }

/-- `InetAddress(const struct sockaddr_in &)` -/
def ofSockAddrIn (junk : SockAddrIn6) (addr : SockAddrIn) : InetAddress :=
  { addr6 := junk.overlay addr, mIsIpv6 := false, isUnspecified := false }

/-- `InetAddress(const struct sockaddr_in6 &)` -/
def ofSockAddrIn6 (addr : SockAddrIn6) : InetAddress :=
  { addr6 := addr, mIsIpv6 := true, isUnspecified := false }

def setSockAddrInet6 (_ : InetAddress) (addr6 : SockAddrIn6) : InetAddress :=
  { addr6, mIsIpv6 := addr6.family = AF_INET6, isUnspecified := false }

/-! ## The predicates -/

def family (a : InetAddress) : UInt16 := a.addr6.family

def isIpV6 (a : InetAddress) : Bool := a.mIsIpv6

/-- `m_addr.sin_addr.s_addr` -/
def ipNetEndian (a : InetAddress) : UInt32 := a.addr6.flowinfo

def ip6NetEndian (a : InetAddress) : In6Addr := a.addr6.addr

/-- The private ranges of IPv4, and 127.0.0.1. -/
def intranet4 (ip : UInt32) : Bool :=
  (ip ≥ 0x0A000000 && ip ≤ 0x0AFFFFFF) || (ip ≥ 0xAC100000 && ip ≤ 0xAC1FFFFF) ||
    (ip ≥ 0xC0A80000 && ip ≤ 0xC0A8FFFF) || ip == 0x7f000001

def isIntranetIp (a : InetAddress) : Bool :=
  if a.family = AF_INET then intranet4 (h.order.ntohl a.ipNetEndian)
  else
    let p := a.ip6NetEndian
    if p.w0 == 0 && p.w1 == 0 && p.w2 == 0 && h.order.ntohl p.w3 == 1 then true
    else
      let i32 := h.order.ntohl p.w0 &&& 0xffc00000
      if i32 == 0xfec00000 || i32 == 0xfe800000 then true
      else
        p.w0 == 0 && p.w1 == 0 && h.order.ntohl p.w2 == 0xffff && intranet4 (h.order.ntohl p.w3)

def isLoopbackIp (a : InetAddress) : Bool :=
  if !a.isIpV6 then h.order.ntohl a.ipNetEndian == kInaddrLoopback
  else
    let p := a.ip6NetEndian
    if p.w0 == 0 && p.w1 == 0 && p.w2 == 0 && h.order.ntohl p.w3 == 1 then true
    else
      p.w0 == 0 && p.w1 == 0 && h.order.ntohl p.w2 == 0xffff && h.order.ntohl p.w3 == 0x7f000001

end InetAddress

/-! ## Endpoints -/

/-- The ways to an `InetAddress`. -/
inductive Build where
  | port (junk : SockAddrIn6) (p : UInt16) (loopbackOnly ipv6 : Bool)
  | ip (junk : SockAddrIn6) (text : List Byte) (p : UInt16) (ipv6 : Bool)
  | sockAddrIn (junk : SockAddrIn6) (addr : SockAddrIn)
  | sockAddrIn6 (addr : SockAddrIn6)
  | setSockAddrInet6 (a : InetAddress) (addr6 : SockAddrIn6)

namespace Build

open InetAddress

variable (h : NetHost)

def make : Build → InetAddress
  | .port junk p loopbackOnly ipv6 => ofPort h junk p loopbackOnly ipv6
  | .ip junk text p ipv6 => ofIp h junk text p ipv6
  | .sockAddrIn junk addr => ofSockAddrIn junk addr
  | .sockAddrIn6 addr => ofSockAddrIn6 addr
  | .setSockAddrInet6 a addr6 => a.setSockAddrInet6 addr6

/-- The structures handed over are those of internet sockets: a
`sockaddr_in` of family `AF_INET`, a `sockaddr_in6` of either family. -/
def Internet : Build → Prop
  | .port .. | .ip .. => True
  | .sockAddrIn _ addr => addr.family = AF_INET
  | .sockAddrIn6 addr | .setSockAddrInet6 _ addr => addr.family = AF_INET ∨ addr.family = AF_INET6

/-- The constructor that takes a `sockaddr_in6` is only given one of IPv6. -/
def FamilyKept : Build → Prop
  | .sockAddrIn6 addr => addr.family = AF_INET6
  | _ => True

/-- The IPv4 address that a structure stands for, if any: of family
`AF_INET`, or mapped into IPv6. -/
def structIpv4 (a : SockAddrIn6) : Option UInt32 :=
  if a.family = AF_INET then some a.flowinfo
  else if a.addr.w0 = 0 ∧ a.addr.w1 = 0 ∧ h.order.ntohl a.addr.w2 = 0xffff then some a.addr.w3
  else none

/-- The IPv4 address that was asked for, in network order. -/
def ipv4 : Build → Option UInt32
  | .port _ _ loopbackOnly ipv6 =>
      if ipv6 then none
      else some (h.order.htonl (if loopbackOnly then kInaddrLoopback else kInaddrAny))
  | .ip _ text _ ipv6 =>
      if ipv6 then (h.pton6 text).bind fun a => structIpv4 h { SockAddrIn6.blank with addr := a }
      else h.pton4 text
  | .sockAddrIn _ addr => some addr.addr
  | .sockAddrIn6 addr | .setSockAddrInet6 _ addr => structIpv4 h addr

end Build

namespace InetAddress

variable {h : NetHost} {a : InetAddress} {ip : UInt32}

/-- The two records of the family agree. -/
def Tagged (a : InetAddress) : Prop := a.isIpV6 = true ↔ a.family = AF_INET6

theorem Tagged.isIpV6_false (ht : a.Tagged) (hf : a.family = AF_INET) : a.isIpV6 = false := by
  rw [← Bool.not_eq_true]
  intro h6
  exact absurd (hf.symm.trans (ht.mp h6)) (by decide)

/-- The family is recorded twice as `ipv6` says. -/
def Records (ipv6 : Bool) (a : InetAddress) : Prop :=
  a.isIpV6 = ipv6 ∧ a.family = if ipv6 then AF_INET6 else AF_INET

theorem Records.tagged {ipv6 : Bool} (hr : Records ipv6 a) : a.Tagged := by
  obtain ⟨h6, hf⟩ := hr
  rw [Tagged, h6, hf]
  cases ipv6 <;> decide

theorem Records.family_cases {ipv6 : Bool} (hr : Records ipv6 a) :
    a.family = AF_INET ∨ a.family = AF_INET6 := by
  rw [hr.2]
  cases ipv6 with
  | false => exact Or.inl rfl
  | true => exact Or.inr rfl

theorem loopback_intranet4 (hip : (ip == kInaddrLoopback) = true) : intranet4 ip = true := by
  rw [eq_of_beq hip]
  decide

theorem Tagged.isIntranetIp (ht : a.Tagged) (hf : a.family = AF_INET ∨ a.family = AF_INET6)
    (hl : a.isLoopbackIp h = true) : a.isIntranetIp h = true := by
  have hne : AF_INET6 ≠ AF_INET := by decide
  unfold InetAddress.isLoopbackIp at hl
  unfold InetAddress.isIntranetIp
  rcases hf with hf | hf
  · rw [ht.isIpV6_false hf] at hl
    rw [if_pos hf]
    exact loopback_intranet4 hl
  · rw [ht.mpr hf] at hl
    rw [hf, if_neg hne]
    simp only [Bool.not_true, Bool.false_eq_true, if_false] at hl ⊢
    split at hl
    · rename_i hone
      rw [if_pos hone]
    · rename_i hone
      rw [if_neg hone]
      split
      · rfl
      · simp only [Bool.and_eq_true] at hl ⊢
        exact ⟨hl.1, loopback_intranet4 hl.2⟩

theorem Tagged.isLoopbackIp_eq (ht : a.Tagged) (hf : a.family = AF_INET ∨ a.family = AF_INET6)
    (hip : Build.structIpv4 h a.addr6 = some ip) :
    a.isLoopbackIp h = (h.order.ntohl ip == kInaddrLoopback) := by
  have hne : AF_INET6 ≠ AF_INET := by decide
  unfold InetAddress.isLoopbackIp
  unfold Build.structIpv4 at hip
  rcases hf with hf | hf
  · rw [if_pos (show a.addr6.family = AF_INET from hf)] at hip
    rw [ht.isIpV6_false hf, ← Option.some.inj hip]
    rfl
  · have hnot : a.addr6.family ≠ AF_INET := fun heq => hne (hf.symm.trans heq)
    rw [ht.mpr hf]
    rw [if_neg hnot] at hip
    split at hip
    · rename_i hmap
      obtain ⟨h0, h1, h2⟩ := hmap
      have hw2 : (a.addr6.addr.w2 == 0) = false := by
        rw [beq_eq_false_iff_ne]
        intro hz
        rw [hz] at h2
        exact absurd h2 (by cases h.order <;> decide)
      simp [ip6NetEndian, h0, h1, h2, hw2, ← Option.some.inj hip, kInaddrLoopback]
    · cases hip

end InetAddress

namespace Build

open InetAddress

variable {h : NetHost} {b : Build} {ip : UInt32}

theorem ofPort_records (junk : SockAddrIn6) (p : UInt16) (loopbackOnly ipv6 : Bool) :
    Records ipv6 (ofPort h junk p loopbackOnly ipv6) := by
  cases ipv6 <;> exact ⟨rfl, rfl⟩

theorem ofIp_records (junk : SockAddrIn6) (text : List Byte) (p : UInt16) (ipv6 : Bool) :
    Records ipv6 (ofIp h junk text p ipv6) := by
  cases ipv6 with
  | false =>
      simp only [ofIp, Bool.false_eq_true, if_false]
      cases h.pton4 text <;> exact ⟨rfl, rfl⟩
  | true =>
      simp only [ofIp, if_true]
      cases h.pton6 text <;> exact ⟨rfl, rfl⟩

theorem family_make (hi : b.Internet) :
    (b.make h).family = AF_INET ∨ (b.make h).family = AF_INET6 := by
  cases b with
  | port junk p loopbackOnly ipv6 => exact (ofPort_records junk p loopbackOnly ipv6).family_cases
  | ip junk text p ipv6 => exact (ofIp_records junk text p ipv6).family_cases
  | sockAddrIn junk addr => exact Or.inl hi
  | sockAddrIn6 addr => exact hi
  | setSockAddrInet6 a addr6 => exact hi

/-- All entry points but one record the family twice alike. -/
theorem tagged_iff (hi : b.Internet) : (b.make h).Tagged ↔ b.FamilyKept := by
  cases b with
  | port junk p loopbackOnly ipv6 =>
      exact iff_of_true (ofPort_records junk p loopbackOnly ipv6).tagged trivial
  | ip junk text p ipv6 => exact iff_of_true (ofIp_records junk text p ipv6).tagged trivial
  | sockAddrIn junk addr =>
      have hrec : Records false (ofSockAddrIn junk addr) := ⟨rfl, hi⟩
      exact iff_of_true hrec.tagged trivial
  | sockAddrIn6 addr => exact ⟨fun ht => ht.mp rfl, fun hf => ⟨fun _ => hf, fun _ => rfl⟩⟩
  | setSockAddrInet6 a addr6 => exact iff_of_true decide_eq_true_iff trivial

theorem structIpv4_make (hi : b.Internet) (hip : b.ipv4 h = some ip) :
    structIpv4 h (b.make h).addr6 = some ip := by
  cases b with
  | port junk p loopbackOnly ipv6 =>
      cases ipv6 with
      | false => exact hip
      | true => cases hip
  | ip junk text p ipv6 =>
      cases ipv6 with
      | false =>
          obtain hip : h.pton4 text = some ip := hip
          simp only [make, ofIp, hip, Bool.false_eq_true, if_false]
          rfl
      | true =>
          obtain ⟨a, ha, hip⟩ := Option.bind_eq_some_iff.mp hip
          simp only [make, ofIp, ha, if_true]
          exact hip
  | sockAddrIn junk addr =>
      have hfam : (ofSockAddrIn junk addr).addr6.family = AF_INET := hi
      rw [make, structIpv4, if_pos hfam]
      exact hip
  | sockAddrIn6 addr => exact hip
  | setSockAddrInet6 a addr6 => exact hip

end Build

/-- **Address family consistency.** Of addresses built in any of the five
ways from internet addresses, `isIpV6()` is the family, a loopback address is
an intranet address, and the answer of `isLoopbackIp()` is one for each IPv4
address, exactly when no `sockaddr_in6` that holds an IPv4 address is passed
to the constructor. -/
theorem family_consistent_iff (h : NetHost) (B : Build → Prop) (hB : ∀ b, B b → b.Internet) :
    ((∀ b, B b → ((b.make h).isIpV6 = true ↔ (b.make h).family = AF_INET6) ∧
        ((b.make h).isLoopbackIp h = true → (b.make h).isIntranetIp h = true)) ∧
      ∀ b b' ip, B b → B b' → b.ipv4 h = some ip → b'.ipv4 h = some ip →
        (b.make h).isLoopbackIp h = (b'.make h).isLoopbackIp h) ↔
      ∀ b, B b → b.FamilyKept := by
  constructor
  · rintro ⟨hall, -⟩ b hb
    exact (Build.tagged_iff (hB b hb)).mp (hall b hb).1
  · intro hkept
    have htag : ∀ b, B b → (b.make h).Tagged := fun b hb =>
      (Build.tagged_iff (hB b hb)).mpr (hkept b hb)
    have hloop : ∀ b ip, B b → b.ipv4 h = some ip →
        (b.make h).isLoopbackIp h = (h.order.ntohl ip == kInaddrLoopback) := fun b ip hb hip =>
      (htag b hb).isLoopbackIp_eq (Build.family_make (hB b hb))
        (Build.structIpv4_make (hB b hb) hip)
    refine ⟨fun b hb => ⟨htag b hb, ?_⟩, fun b b' ip hb hb' hip hip' => ?_⟩
    · exact (htag b hb).isIntranetIp (Build.family_make (hB b hb))
    · rw [hloop b ip hb hip, hloop b' ip hb' hip']

/-- A little-endian host on which no text is an address. -/
def bareHost : NetHost := ⟨.little, fun _ => none, fun _ => none⟩

/-- 127.0.0.1:80 as `getsockname` writes it. -/
def localhost80 : SockAddrIn6 :=
  ⟨AF_INET, ByteOrder.htons .little 80, ByteOrder.htonl .little kInaddrLoopback, ⟨0, 0, 0, 0⟩, 0⟩

/-- The peer of an accepted connection, and an address made for the loopback
interface. -/
def acceptedOrPort (b : Build) : Prop :=
  b = .setSockAddrInet6 ⟨.blank, false, true⟩ localhost80 ∨ b = .port .blank 80 true false

/-- Both are loopback addresses, or neither is. -/
theorem family_consistent_accepted :
    ((Build.setSockAddrInet6 ⟨.blank, false, true⟩ localhost80).make bareHost).isLoopbackIp
        bareHost =
      ((Build.port .blank 80 true false).make bareHost).isLoopbackIp bareHost := by
  have hnet : ∀ b, acceptedOrPort b → b.Internet := by
    rintro b (rfl | rfl)
    · exact Or.inl rfl
    · trivial
  have hkept : ∀ b, acceptedOrPort b → b.FamilyKept := by
    rintro b (rfl | rfl) <;> trivial
  exact ((family_consistent_iff bareHost acceptedOrPort hnet).mpr hkept).2 _ _
    localhost80.flowinfo (Or.inl rfl) (Or.inr rfl) rfl rfl

/-- The local address of an accepted connection: the flag says IPv6, the
union IPv4, and 127.0.0.1 is no loopback address any more. -/
theorem localAddr_not_loopback :
    let a := (Build.sockAddrIn6 localhost80).make bareHost
    let a' := (Build.sockAddrIn .blank ⟨AF_INET, localhost80.port, localhost80.flowinfo,
      (0, 0)⟩).make bareHost
    a.isIpV6 = true ∧ a.family = AF_INET ∧
      (Build.sockAddrIn6 localhost80).ipv4 bareHost = some localhost80.flowinfo ∧
      a.isLoopbackIp bareHost = false ∧ a'.isLoopbackIp bareHost = true := by
  decide

end Netpoll
