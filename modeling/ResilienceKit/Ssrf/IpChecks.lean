import ResilienceKit.Lib.Networks
import ResilienceKit.Ssrf.Guard

/-!
# Ssrf.IpChecks — which addresses the classifier lets through

`classify_non_public` asks six flags of `ipaddress`.  Their tables differ between the patch releases of
CPython 3.11 to 3.13, which a `Release` tells apart.  `Public` is what the registries of special-purpose
addresses say of an address and of the IPv4 addresses in it; `Missed` are the addresses that pass all six
flags and are not public.
-/

namespace ResilienceKit.Ssrf

open Network

/-- The number of an address, of either version. -/
inductive Address
  | v4 (ip : BitVec 32)
  | v6 (ip : BitVec 128)
  deriving DecidableEq

/-- `IPv4Network('a.b.c.d/prefixlen')` -/
def net4 (a b c d prefixlen : ℕ) : Network 32 := ⟨((a * 256 + b) * 256 + c) * 256 + d, prefixlen⟩

/-- `IPv6Network`, by its first groups of sixteen bits. -/
def net6 (groups : List ℕ) (prefixlen : ℕ) : Network 128 :=
  ⟨groups.foldl (fun n g => n * 65536 + g) 0 * 65536 ^ (8 - groups.length), prefixlen⟩

/-! ### `ipaddress` -/

/-- What the patch releases have changed. -/
structure Release where
  /-- The private networks follow the registries, with their exceptions (3.11.10, 3.12.4, 3.13). -/
  exceptions : Bool
  /-- Every flag of an IPv4-mapped address is that of its IPv4 address (3.12.6, 3.13). -/
  mappedFlags : Bool
  /-- `3fff::/20` is private (3.12.8, 3.13.1). -/
  documentation : Bool
  deriving DecidableEq

namespace Ipv4

def linklocal : Network 32 := net4 169 254 0 0 16
def loopback : Network 32 := net4 127 0 0 0 8
def multicast : Network 32 := net4 224 0 0 0 4
def reserved : Network 32 := net4 240 0 0 0 4
def unspecified : ℕ := 0

/-- `_private_networks` -/
def privateNetworks (R : Release) : List (Network 32) :=
  [net4 0 0 0 0 8, net4 10 0 0 0 8, net4 127 0 0 0 8, net4 169 254 0 0 16, net4 172 16 0 0 12,
    if R.exceptions then net4 192 0 0 0 24 else net4 192 0 0 0 29,
    net4 192 0 0 170 31, net4 192 0 2 0 24, net4 192 168 0 0 16, net4 198 18 0 0 15,
    net4 198 51 100 0 24, net4 203 0 113 0 24, net4 240 0 0 0 4, net4 255 255 255 255 32]

/-- `_private_networks_exceptions` -/
def privateNetworksExceptions (R : Release) : List (Network 32) :=
  if R.exceptions then [net4 192 0 0 9 32, net4 192 0 0 10 32] else []

end Ipv4

/-- `IPv4Address`, with the properties that the classifier reads. -/
def Release.ipv4 (R : Release) (text : String) (ip : ℕ) : IpAddress where
  text := text
  is_loopback := Ipv4.loopback.contains ip
  is_link_local := Ipv4.linklocal.contains ip
  is_multicast := Ipv4.multicast.contains ip
  is_unspecified := ip = Ipv4.unspecified
  is_private := (Ipv4.privateNetworks R).any (fun net => net.contains ip) &&
    (Ipv4.privateNetworksExceptions R).all fun net => !net.contains ip
  is_reserved := Ipv4.reserved.contains ip

namespace Ipv6

def linklocal : Network 128 := net6 [0xfe80] 10
def multicast : Network 128 := net6 [0xff00] 8

/-- `_private_networks` -/
def privateNetworks (R : Release) : List (Network 128) :=
  [net6 [0, 0, 0, 0, 0, 0, 0, 1] 128, net6 [] 128, net6 [0, 0, 0, 0, 0, 0xffff] 96, net6 [0x100] 64,
    net6 [0x2001] 23, net6 [0x2001, 0xdb8] 32, net6 [0xfc00] 7, net6 [0xfe80] 10] ++
  (if R.exceptions then [net6 [0x64, 0xff9b, 1] 48, net6 [0x2002] 16]
    else [net6 [0x2001, 2] 48, net6 [0x2001, 0x10] 28]) ++
  if R.documentation then [net6 [0x3fff] 20] else []

/-- `_private_networks_exceptions` -/
def privateNetworksExceptions (R : Release) : List (Network 128) :=
  if R.exceptions then
    [net6 [0x2001, 1, 0, 0, 0, 0, 0, 1] 128, net6 [0x2001, 1, 0, 0, 0, 0, 0, 2] 128, net6 [0x2001, 3] 32,
      net6 [0x2001, 4, 0x112] 48, net6 [0x2001, 0x20] 28, net6 [0x2001, 0x30] 28]
  else []

/-- `_reserved_networks` -/
def reservedNetworks : List (Network 128) :=
  [net6 [] 8, net6 [0x100] 8, net6 [0x200] 7, net6 [0x400] 6, net6 [0x800] 5, net6 [0x1000] 4,
    net6 [0x4000] 3, net6 [0x6000] 3, net6 [0x8000] 3, net6 [0xa000] 3, net6 [0xc000] 3, net6 [0xe000] 4,
    net6 [0xf000] 5, net6 [0xf800] 6, net6 [0xfe00] 9]

/-- `ipv4_mapped` -/
def ipv4Mapped (ip : ℕ) : Option ℕ := if ip / 2 ^ 32 = 0xffff then some (ip % 2 ^ 32) else none

end Ipv6

/-- The properties of an `IPv6Address` that embeds no IPv4 address. -/
def Release.ownFlags (R : Release) (text : String) (ip : ℕ) : IpAddress where
  text := text
  is_loopback := ip = 1
  is_link_local := Ipv6.linklocal.contains ip
  is_multicast := Ipv6.multicast.contains ip
  is_unspecified := ip = 0
  is_private := (Ipv6.privateNetworks R).any (fun net => net.contains ip) &&
    (Ipv6.privateNetworksExceptions R).all fun net => !net.contains ip
  is_reserved := Ipv6.reservedNetworks.any fun net => net.contains ip

/-- `IPv6Address` -/
def Release.ipv6 (R : Release) (text : String) (ip : ℕ) : IpAddress :=
  match Ipv6.ipv4Mapped ip with
  | none => R.ownFlags text ip
  | some mapped =>
    if R.mappedFlags then R.ipv4 text mapped
    else { R.ownFlags text ip with is_private := (R.ipv4 text mapped).is_private }

def Release.address (R : Release) (text : String) : Address → IpAddress
  | .v4 ip => R.ipv4 text ip.toNat
  | .v6 ip => R.ipv6 text ip.toNat

/-- The platform whose `ipaddress` is that of the release; `parse` reads a text. -/
def Release.platform (R : Release) (parse : String → Option Address) (p : Platform) : Platform :=
  { p with ip_address := fun text => (parse text).map (R.address text) }

/-- Some flag of the address is set. -/
def nonPublic (ip : IpAddress) : Bool :=
  ip.is_loopback || ip.is_link_local || ip.is_multicast || ip.is_unspecified || ip.is_private ||
    ip.is_reserved

theorem classifyNonPublic_none_iff {p : Platform} {addr : String} :
    classifyNonPublic p addr = .ok none ↔
      ∃ ip, p.ip_address addr = some ip ∧ nonPublic ip = false := by
  unfold classifyNonPublic nonPublic
  cases h : p.ip_address addr with
  | none => simp
  | some ip =>
    -- no flag is found if none is set
    simp only [Except.ok.injEq, Option.map_eq_none_iff, List.find?_eq_none, List.forall_mem_cons]
    simp [and_assoc]

/-! ### The registries -/

/-- The column "globally reachable" of a registry: true, false, or not applicable. -/
abbrev Registry (w : ℕ) := List (Network w × Option Bool)

/-- The most specific entry of the address denies that it is globally reachable. -/
def denies {w : ℕ} (registry : Registry w) (ip : ℕ) : Bool :=
  registry.any fun e => decide (e.2 = some false) && (e.1.contains ip &&
    registry.all fun e' => !(decide (e.1.prefixlen < e'.1.prefixlen) && e'.1.contains ip))

/-- The IPv4 special-purpose address registry. -/
def registry4 : Registry 32 :=
  [(net4 0 0 0 0 8, some false), (net4 10 0 0 0 8, some false), (net4 100 64 0 0 10, some false),
    (net4 127 0 0 0 8, some false), (net4 169 254 0 0 16, some false), (net4 172 16 0 0 12, some false),
    (net4 192 0 0 0 24, some false), (net4 192 0 0 0 29, some false), (net4 192 0 0 8 32, some false),
    (net4 192 0 0 9 32, some true), (net4 192 0 0 10 32, some true), (net4 192 0 0 170 32, some false),
    (net4 192 0 0 171 32, some false), (net4 192 0 2 0 24, some false), (net4 192 31 196 0 24, some true),
    (net4 192 52 193 0 24, some true), (net4 192 88 99 0 24, none), (net4 192 88 99 2 32, some false),
    (net4 192 168 0 0 16, some false), (net4 192 175 48 0 24, some true), (net4 198 18 0 0 15, some false),
    (net4 198 51 100 0 24, some false), (net4 203 0 113 0 24, some false), (net4 240 0 0 0 4, some false),
    (net4 255 255 255 255 32, some false)]

def mappedNet : Network 128 := net6 [0, 0, 0, 0, 0, 0xffff] 96
def nat64Net : Network 128 := net6 [0x64, 0xff9b] 96
def sixToFourNet : Network 128 := net6 [0x2002] 16
def teredoNet : Network 128 := net6 [0x2001, 0] 32

/-- The IPv6 special-purpose address registry. -/
def registry6 : Registry 128 :=
  [(net6 [0, 0, 0, 0, 0, 0, 0, 1] 128, some false), (net6 [] 128, some false), (mappedNet, some false),
    (nat64Net, some true), (net6 [0x64, 0xff9b, 1] 48, some false), (net6 [0x100] 64, some false),
    (net6 [0x100, 0, 0, 1] 64, some false), (net6 [0x2001] 23, some false), (teredoNet, none),
    (net6 [0x2001, 1, 0, 0, 0, 0, 0, 1] 128, some true), (net6 [0x2001, 1, 0, 0, 0, 0, 0, 2] 128, some true),
    (net6 [0x2001, 1, 0, 0, 0, 0, 0, 3] 128, some true), (net6 [0x2001, 2] 48, some false),
    (net6 [0x2001, 3] 32, some true), (net6 [0x2001, 4, 0x112] 48, some true), (net6 [0x2001, 0x10] 28, none),
    (net6 [0x2001, 0x20] 28, some true), (net6 [0x2001, 0x30] 28, some true),
    (net6 [0x2001, 0xdb8] 32, some false), (sixToFourNet, none), (net6 [0x2620, 0x4f, 0x8000] 48, some true),
    (net6 [0x3fff] 20, some false), (net6 [0x5f00] 16, some false), (net6 [0xfc00] 7, some false),
    (net6 [0xfe80] 10, some false)]

/-- The global unicast space; only the NAT64 prefix is globally reachable outside it. -/
def globalUnicast : Network 128 := net6 [0x2000] 3

def public4 (ip : ℕ) : Bool := !(net4 224 0 0 0 4).contains ip && !denies registry4 ip

/-- The IPv4 addresses that an IPv6 address embeds: a Teredo address has a server and a client, of which
the client is written with every bit flipped. -/
def embedded (ip : ℕ) : List ℕ :=
  if mappedNet.contains ip || nat64Net.contains ip then [ip % 2 ^ 32]
  else if sixToFourNet.contains ip then [ip / 2 ^ 80 % 2 ^ 32]
  else if teredoNet.contains ip then [ip / 2 ^ 64 % 2 ^ 32, 2 ^ 32 - 1 - ip % 2 ^ 32]
  else []

/-- Unicast, in the global space, and not denied by the registry. -/
def reachable6 (ip : ℕ) : Bool :=
  (globalUnicast.contains ip || nat64Net.contains ip) && !denies registry6 ip

/-- A mapped address is the IPv4 address in it; the other forms are addresses of their own. -/
def public6 (ip : ℕ) : Bool :=
  (mappedNet.contains ip || reachable6 ip) && (embedded ip).all public4

/-- Globally reachable unicast, as are the IPv4 addresses embedded in the address. -/
def Public : Address → Prop
  | .v4 ip => public4 ip.toNat = true
  | .v6 ip => public6 ip.toNat = true

/-! ### What the flags miss -/

/-- Shared address space, the address of the 6a44 relay, and the protocol assignments that the older table leaves
out. -/
def missed4 (R : Release) (ip : ℕ) : Bool :=
  (net4 100 64 0 0 10).contains ip || (net4 192 88 99 2 32).contains ip ||
    (!R.exceptions && (net4 192 0 0 0 24).contains ip &&
      [net4 192 0 0 0 29, net4 192 0 0 9 32, net4 192 0 0 10 32, net4 192 0 0 170 31].all
        fun net => !net.contains ip)

/-- The addresses that have no IPv4 address in them: the former site-local space, and documentation. -/
def missedOwn (R : Release) (ip : ℕ) : Bool :=
  (net6 [0xfec0] 10).contains ip || (!R.documentation && (net6 [0x3fff] 20).contains ip)

def missed6 (R : Release) (ip : ℕ) : Bool :=
  missedOwn R ip || (R.mappedFlags && mappedNet.contains ip && missed4 R (ip % 2 ^ 32)) ||
    (!R.exceptions && sixToFourNet.contains ip && !public4 (ip / 2 ^ 80 % 2 ^ 32))

/-- The addresses with no flag set that are not public. -/
def Missed (R : Release) : Address → Prop
  | .v4 ip => missed4 R ip.toNat = true
  | .v6 ip => missed6 R ip.toNat = true

/-! ### IPv4 -/

section IPv4

variable (R : Release) (text : String)

/-- The networks that decide about an IPv4 address. -/
def networks4 : List (Network 32) :=
  [⟨0, 0⟩, host 32 0, Ipv4.linklocal, Ipv4.loopback, Ipv4.multicast, Ipv4.reserved] ++
    Ipv4.privateNetworks R ++ Ipv4.privateNetworksExceptions R ++ registry4.map Prod.fst ++
    [net4 192 0 0 0 24, net4 192 0 0 0 29, net4 192 0 0 9 32, net4 192 0 0 10 32, net4 192 0 0 170 31]

/-- Either a flag is set, or the address is public, or it is missed. -/
def settled4 (ip : ℕ) : Bool := (nonPublic (R.ipv4 "" ip) || public4 ip) == !missed4 R ip

variable {R}

theorem sees_denies {w : ℕ} {L : List (Network w)} {registry : Registry w}
    (h : ∀ e ∈ registry, e.1 ∈ L) : Sees L (denies registry) := by
  refine .any fun e he => .and (.const _) (.and (.contains (h e he)) (.all fun e' he' => ?_))
  exact .not (.and (.const _) (.contains (h e' he')))

theorem mem_registry {w : ℕ} {registry : Registry w} {e : Network w × Option Bool} (h : e ∈ registry) :
    e.1 ∈ registry.map Prod.fst := List.mem_map_of_mem h

theorem sees_public4 : Sees (networks4 R) public4 := by
  refine .and (.not (.contains ?_)) (.not (sees_denies fun e he => ?_))
  · simp [networks4, Ipv4.multicast]
  · have := mem_registry he
    simp only [networks4, List.mem_append]
    exact .inl (.inr this)

theorem sees_ipv4 : Sees (networks4 R) fun ip => nonPublic (R.ipv4 "" ip) := by
  have hprivate : ∀ net ∈ Ipv4.privateNetworks R, net ∈ networks4 R := by
    intro net h
    simp [networks4, h]
  have hexceptions : ∀ net ∈ Ipv4.privateNetworksExceptions R, net ∈ networks4 R := by
    intro net h
    simp [networks4, h]
  refine .or (.or (.or (.or (.or (.contains ?_) (.contains ?_)) (.contains ?_)) (.eq ?_)) ?_) (.contains ?_)
  · simp [networks4]
  · simp [networks4]
  · simp [networks4]
  · simp [networks4, Ipv4.unspecified]
  · exact .and (.any fun net h => .contains (hprivate net h))
      (.all fun net h => .not (.contains (hexceptions net h)))
  · simp [networks4]

theorem sees_missed4 : Sees (networks4 R) (missed4 R) := by
  refine .or (.or (.contains ?_) (.contains ?_))
    (.and (.and (.const _) (.contains ?_)) (.all fun net h => .not (.contains ?_)))
  · simp [networks4, registry4]
  · simp [networks4, registry4]
  · simp [networks4]
  · simp only [List.mem_cons, List.not_mem_nil, or_false] at h
    rcases h with rfl | rfl | rfl | rfl <;> simp [networks4]

theorem settled4_all {ip : ℕ} (hip : ip < 2 ^ 32) : settled4 R ip = true := by
  have hsees : Sees (networks4 R) (settled4 R) := .beq (.or sees_ipv4 sees_public4) (.not sees_missed4)
  refine hsees.forall_lt (by simp [networks4]) ?_ hip
  obtain ⟨_ | _, _ | _, _ | _⟩ := R <;> decide +kernel

end IPv4

/-! ### IPv6 -/

section IPv6

variable (R : Release)

/-- The networks that decide about the flags of an IPv6 address of its own. -/
def networks6 : List (Network 128) :=
  [⟨0, 0⟩, host 128 0, host 128 1, Ipv6.linklocal, Ipv6.multicast, globalUnicast, net6 [0xfec0] 10,
    net6 [0x3fff] 20, mappedNet, nat64Net, sixToFourNet, teredoNet] ++
    Ipv6.privateNetworks R ++ Ipv6.privateNetworksExceptions R ++ Ipv6.reservedNetworks ++
    registry6.map Prod.fst

/-- What the flags of an address of its own say of each form. -/
def settledOwn (ip : ℕ) : Bool :=
  if mappedNet.contains ip then
    (R.ownFlags "" ip).is_reserved && !missedOwn R ip && !sixToFourNet.contains ip
  else if nat64Net.contains ip || teredoNet.contains ip then
    nonPublic (R.ownFlags "" ip) && !missedOwn R ip && !sixToFourNet.contains ip
  else if sixToFourNet.contains ip then
    (nonPublic (R.ownFlags "" ip) == R.exceptions) && reachable6 ip && !missedOwn R ip
  else (nonPublic (R.ownFlags "" ip) || reachable6 ip) == !missedOwn R ip

variable {R}

theorem mem_networks6 {net : Network 128} (h : net ∈ [⟨0, 0⟩, host 128 0, host 128 1, Ipv6.linklocal,
    Ipv6.multicast, globalUnicast, net6 [0xfec0] 10, net6 [0x3fff] 20, mappedNet, nat64Net, sixToFourNet,
    teredoNet]) : net ∈ networks6 R := by
  simp only [networks6, List.mem_append]
  exact .inl (.inl (.inl (.inl h)))

theorem sees_reserved : Sees (networks6 R) fun ip => (R.ownFlags "" ip).is_reserved :=
  .any fun net h => .contains (by simp [networks6, h])

theorem sees_ownFlags : Sees (networks6 R) fun ip => nonPublic (R.ownFlags "" ip) := by
  have hprivate : ∀ net ∈ Ipv6.privateNetworks R, net ∈ networks6 R := by
    intro net h
    simp [networks6, h]
  have hexceptions : ∀ net ∈ Ipv6.privateNetworksExceptions R, net ∈ networks6 R := by
    intro net h
    simp [networks6, h]
  refine .or (.or (.or (.or (.or (.eq ?_) (.contains ?_)) (.contains ?_)) (.eq ?_)) ?_) sees_reserved
  · exact mem_networks6 (by simp)
  · exact mem_networks6 (by simp)
  · exact mem_networks6 (by simp)
  · exact mem_networks6 (by simp)
  · exact .and (.any fun net h => .contains (hprivate net h))
      (.all fun net h => .not (.contains (hexceptions net h)))

theorem sees_reachable6 : Sees (networks6 R) reachable6 := by
  refine .and (.or (.contains (mem_networks6 (by simp))) (.contains (mem_networks6 (by simp))))
    (.not (sees_denies fun e he => ?_))
  have := mem_registry he
  simp only [networks6, List.mem_append]
  exact .inr this

theorem sees_missedOwn : Sees (networks6 R) (missedOwn R) :=
  .or (.contains (mem_networks6 (by simp))) (.and (.const _) (.contains (mem_networks6 (by simp))))

theorem settledOwn_all {ip : ℕ} (hip : ip < 2 ^ 128) : settledOwn R ip = true := by
  have hsix : Sees (networks6 R) sixToFourNet.contains := .contains (mem_networks6 (by simp))
  have hsees : Sees (networks6 R) (settledOwn R) := by
    refine .ite (.contains (mem_networks6 (by simp))) (.and (.and sees_reserved (.not sees_missedOwn))
      (.not hsix)) (.ite (.or (.contains (mem_networks6 (by simp))) (.contains (mem_networks6 (by simp))))
      (.and (.and sees_ownFlags (.not sees_missedOwn)) (.not hsix)) (.ite hsix ?_ ?_))
    · exact .and (.and (.beq sees_ownFlags (.const _)) sees_reachable6) (.not sees_missedOwn)
    · exact .beq (.or sees_ownFlags sees_reachable6) (.not sees_missedOwn)
  refine hsees.forall_lt (mem_networks6 (by simp)) ?_ hip
  obtain ⟨_ | _, _ | _, _ | _⟩ := R <;> decide +kernel

theorem ipv4Mapped_eq (ip : ℕ) :
    Ipv6.ipv4Mapped ip = if mappedNet.contains ip then some (ip % 2 ^ 32) else none := by
  have hnet : mappedNet.contains ip = decide (ip / 2 ^ 32 = 0xffff) := rfl
  rw [hnet, Ipv6.ipv4Mapped]
  simp only [decide_eq_true_eq]

theorem settled6_all (text : String) {ip : ℕ} (hip : ip < 2 ^ 128) :
    (nonPublic (R.ipv6 text ip) || public6 ip) = !missed6 R ip := by
  have hown := settledOwn_all (R := R) hip
  have hflags : nonPublic (R.ownFlags text ip) = nonPublic (R.ownFlags "" ip) := rfl
  unfold settledOwn at hown
  unfold Release.ipv6 public6 embedded missed6
  rw [ipv4Mapped_eq]
  cases hm : mappedNet.contains ip with
  | true =>
    -- the address is the IPv4 address in it
    obtain ⟨low, hlow⟩ : ∃ low, ip % 2 ^ 32 = low := ⟨_, rfl⟩
    have h4 : (nonPublic (R.ipv4 text low) || public4 low) = !missed4 R low := by
      have hlt : low < 2 ^ 32 := hlow ▸ Nat.mod_lt _ (Nat.two_pow_pos 32)
      exact eq_of_beq (settled4_all hlt)
    simp only [hm, if_true, Bool.and_eq_true, Bool.not_eq_true'] at hown
    obtain ⟨⟨hreserved, hmissed⟩, hsix⟩ := hown
    have hset : (R.ownFlags text ip).is_reserved = true := hreserved
    rw [hlow]
    cases hR : R.mappedFlags with
    | true => simp [hmissed, hsix, h4]
    | false => simp [hmissed, hsix, nonPublic, hset]
  | false =>
    simp only [hm, Bool.false_eq_true, if_false, Bool.false_or] at hown ⊢
    rw [hflags]
    cases hn : nat64Net.contains ip || teredoNet.contains ip with
    | true =>
      simp only [hn, if_true, Bool.and_eq_true, Bool.not_eq_true'] at hown
      obtain ⟨⟨hset, hmissed⟩, hsix⟩ := hown
      simp [hset, hmissed, hsix]
    | false =>
      simp only [Bool.or_eq_false_iff] at hn
      simp only [hn.1, hn.2, Bool.or_false, Bool.false_eq_true, if_false] at hown ⊢
      cases hs : sixToFourNet.contains ip with
      | true =>
        simp only [hs, if_true, Bool.and_eq_true, Bool.not_eq_true', beq_iff_eq] at hown
        obtain ⟨⟨hset, hreach⟩, hmissed⟩ := hown
        simp [hset, hreach, hmissed]
      | false =>
        simp only [hs, Bool.false_eq_true, if_false, beq_iff_eq] at hown
        simp [hown]

end IPv6

/-! ### The classifier and the guard -/

variable {R : Release} {parse : String → Option Address} {p : Platform}

/-- An address that passes every flag is public unless it is missed. -/
theorem passes_public_iff (R : Release) (text : String) (a : Address) :
    (nonPublic (R.address text a) = false → Public a) ↔ ¬ Missed R a := by
  have key : ∀ flagged isPublic missed : Bool, (flagged || isPublic) = !missed →
      ((flagged = false → isPublic = true) ↔ ¬ missed = true) := by
    decide
  cases a with
  | v4 ip => exact key _ _ _ (eq_of_beq (settled4_all ip.isLt))
  | v6 ip => exact key _ _ _ (settled6_all text ip.isLt)

theorem classify_iff {addr : String} {a : Address} (ha : parse addr = some a) :
    classifyNonPublic (R.platform parse p) addr = .ok none ↔ nonPublic (R.address addr a) = false := by
  have hip : (R.platform parse p).ip_address addr = some (R.address addr a) := by
    simp [Release.platform, ha]
  rw [classifyNonPublic_none_iff, hip]
  simp

/-- Every address of an answer of the guard has been read and has no flag. -/
theorem answer_passes {settings : SSRFSettings} {url : String} {strict : Bool} {addrs : List String}
    (h : resolveAndValidate (R.platform parse p) settings url strict = .ok addrs) :
    ∀ addr ∈ addrs, ∃ a, parse addr = some a ∧ nonPublic (R.address addr a) = false := by
  intro addr hmem
  obtain ⟨-, -, -, -, -, -, hpublic⟩ := resolveAndValidate_ok h (List.ne_nil_of_mem hmem)
  obtain ⟨ip, hip, hclear⟩ := classifyNonPublic_none_iff.mp (hpublic addr hmem)
  obtain ⟨a, ha, rfl⟩ := Option.map_eq_some_iff.mp hip
  exact ⟨a, ha, hclear⟩

/-- For every patch release, the classifier lets through public addresses only, exactly apart from the
missed ones; and an address that the guard returns is public exactly if it is not missed. -/
theorem classify_public_iff (R : Release) (parse : String → Option Address) (p : Platform) :
    (∀ addr a, parse addr = some a →
      ((classifyNonPublic (R.platform parse p) addr = .ok none → Public a) ↔ ¬ Missed R a)) ∧
    ∀ settings url strict addrs, resolveAndValidate (R.platform parse p) settings url strict = .ok addrs →
      ∀ addr ∈ addrs, ∃ a, parse addr = some a ∧ (Public a ↔ ¬ Missed R a) := by
  constructor
  · intro addr a ha
    rw [classify_iff ha]
    exact passes_public_iff R addr a
  · intro settings url strict addrs h addr hmem
    obtain ⟨a, ha, hclear⟩ := answer_passes h addr hmem
    have hiff := passes_public_iff R addr a
    exact ⟨a, ha, ⟨fun hpub => hiff.mp fun _ => hpub, fun hno => hiff.mpr hno hclear⟩⟩

/-- Two literal addresses, and a resolver that knows no name. -/
def sampleParse : String → Option Address
  | "8.8.8.8" => some (.v4 0x08080808#32)
  | "100.100.100.200" => some (.v4 0x646464c8#32)
  | _ => none

def literals : Platform where
  lower s := s
  netlocOk _ := true
  ip_address _ := none
  getaddrinfo _ := .error .gaierror

/-- CPython 3.13 since its first patch release. -/
def v3_13 : Release := ⟨true, true, true⟩

theorem classify_public_iff_literals :
    ((classifyNonPublic (v3_13.platform sampleParse literals) "8.8.8.8" = .ok none →
      Public (.v4 0x08080808#32)) ↔ ¬ Missed v3_13 (.v4 0x08080808#32)) ∧
    ∀ addr ∈ ["8.8.8.8"], ∃ a, sampleParse addr = some a ∧ (Public a ↔ ¬ Missed v3_13 a) :=
  ⟨(classify_public_iff v3_13 sampleParse literals).1 "8.8.8.8" _ rfl,
    (classify_public_iff v3_13 sampleParse literals).2 {} "http://8.8.8.8/" true ["8.8.8.8"]
      (by decide +kernel)⟩

/-- A metadata service in the shared address space passes the guard. -/
theorem shared_address_admitted :
    classifyNonPublic (v3_13.platform sampleParse literals) "100.100.100.200" = .ok none ∧
      resolveAndValidate (v3_13.platform sampleParse literals) {} "http://100.100.100.200/latest/meta-data"
        true = .ok ["100.100.100.200"] ∧
      sampleParse "100.100.100.200" = some (.v4 0x646464c8#32) ∧ ¬ Public (.v4 0x646464c8#32) := by
  refine ⟨by decide +kernel, by decide +kernel, rfl, ?_⟩
  unfold Public
  decide +kernel

end ResilienceKit.Ssrf
