import Jyth.VmModel.Config

/-!
# From a configuration to a boot message

The NAT network of `vm-model` (`network.rs`), and how `launch.rs` of `jyth-runtime` turns
network and disks of an accepted configuration into the boot configuration that is sent
to the guest.  The texts of addresses are read by the standard library and `ipnet`, which
are parameters here (`Parsers`).

    the message is built and encoded ↔ a prefix of at least 1, at most 64 disks, short mount
    paths, a valid bootstrap and lengths that fit the frame        (accepted_config_boots_iff)
-/

namespace Jyth.VmModel

open Format Protocol List BootConfigV1 GuestNetworkConfigV1

/-! ## Addresses -/

section Addresses

inductive IpAddr
  | v4 (address : Ipv4)
  | v6 (address : Block 16)
deriving DecidableEq

structure Ipv4Net where
  address : Ipv4
  prefixLen : UInt8
deriving DecidableEq

def Ipv4.value (address : Ipv4) : Nat := ofBE address.1

namespace Ipv4Net

variable (net : Ipv4Net)

def hostBits : Nat := 32 - net.prefixLen.toNat

/-- The first address: the host bits are cleared. -/
def network : Nat := Ipv4.value net.address / 2 ^ net.hostBits * 2 ^ net.hostBits

/-- The last address: the host bits are set. -/
def broadcast : Nat := net.network + (2 ^ net.hostBits - 1)

def contains (address : Ipv4) : Prop :=
  net.network ≤ Ipv4.value address ∧ Ipv4.value address ≤ net.broadcast

instance (address : Ipv4) : Decidable (net.contains address) :=
  inferInstanceAs (Decidable (_ ∧ _))

variable {net}

theorem contains.div_eq {address : Ipv4} (h : net.contains address) :
    Ipv4.value address / 2 ^ net.hostBits = Ipv4.value net.address / 2 ^ net.hostBits := by
  obtain ⟨hlow, hhigh⟩ := h
  have hpos : 0 < 2 ^ net.hostBits := Nat.two_pow_pos _
  rw [broadcast] at hhigh
  rw [network] at hlow hhigh
  refine Nat.div_eq_of_lt_le hlow ?_
  rw [Nat.succ_mul]
  omega

end Ipv4Net

end Addresses

/-! ## The network of a VM -/

section Network

inductive NatAddress
  | gateway | guestIp
deriving DecidableEq

inductive NatError
  | invalidSubnet (value reason : String)
  | invalidAddress (field : NatAddress) (value reason : String)
  | subnetTooSmall (prefixLen : UInt8)
  | addressOutsideSubnet (field : NatAddress) (address : Ipv4) (subnet : Ipv4Net)
  | addressIsNetwork (field : NatAddress) (address : Ipv4)
  | addressIsBroadcast (field : NatAddress) (address : Ipv4)
  | addressesEqual (address : Ipv4)
  | invalidDns (index : Nat) (value reason : String)
  | tooManyDnsServers (actual maximum : Nat)
deriving DecidableEq

/-- How texts are read. -/
structure Parsers where
  subnet : String → Except String Ipv4Net
  ipv4 : String → Except String Ipv4
  ip : String → Except String IpAddr

def maxDnsServers : Nat := 8

/-- The fields of `Nat`. -/
structure NatNetwork where
  subnet : Ipv4Net
  gateway : Ipv4
  guestIp : Ipv4
  dns : List IpAddr
deriving DecidableEq

def parseEndpoint (parsers : Parsers) (value : String) (field : NatAddress) : Except NatError Ipv4 :=
  (parsers.ipv4 value).mapError (.invalidAddress field value)

def parseDns (parsers : Parsers) (index : Nat) : List String → Except NatError (List IpAddr)
  | [] => return []
  | value :: rest => do
    failIf (maxDnsServers ≤ index) (.tooManyDnsServers (index + 1) maxDnsServers)
    let address ← (parsers.ip value).mapError (.invalidDns index value)
    let others ← parseDns parsers (index + 1) rest
    return address :: others

def validateEndpoint (subnet : Ipv4Net) (field : NatAddress) (address : Ipv4) :
    Except NatError Unit := do
  failIf (30 < subnet.prefixLen) (.subnetTooSmall subnet.prefixLen)
  failIf (¬ subnet.contains address) (.addressOutsideSubnet field address subnet)
  failIf (Ipv4.value address = subnet.network) (.addressIsNetwork field address)
  failIf (Ipv4.value address = subnet.broadcast) (.addressIsBroadcast field address)

def NatNetwork.validate (nat : NatNetwork) : Except NatError Unit := do
  validateEndpoint nat.subnet .gateway nat.gateway
  validateEndpoint nat.subnet .guestIp nat.guestIp
  failIf (nat.gateway = nat.guestIp) (.addressesEqual nat.gateway)

def NatNetwork.tryNew (parsers : Parsers) (subnet gateway guestIp : String) (dns : List String) :
    Except NatError NatNetwork := do
  let net ← (parsers.subnet subnet).mapError (.invalidSubnet subnet)
  let gatewayAddress ← parseEndpoint parsers gateway .gateway
  let guestAddress ← parseEndpoint parsers guestIp .guestIp
  let servers ← parseDns parsers 0 dns
  let nat : NatNetwork := ⟨net, gatewayAddress, guestAddress, servers⟩
  nat.validate
  return nat

variable {parsers : Parsers} {nat : NatNetwork}

theorem parseDns_length {index : Nat} {texts : List String} {dns : List IpAddr}
    (hindex : index ≤ maxDnsServers) (h : parseDns parsers index texts = .ok dns) :
    index + dns.length ≤ maxDnsServers := by
  induction texts generalizing index dns with
  | nil =>
    rw [← pure_eq_ok.1 h]
    exact hindex
  | cons text rest ih =>
    simp only [parseDns, failIf_eq_ok, bind_eq_ok, pure_eq_ok] at h
    obtain ⟨-, hroom, address, -, others, hothers, rfl⟩ := h
    have hlength := ih (Nat.lt_of_not_le hroom) hothers
    rw [length_cons]
    omega

/-- What `try_new` checks. -/
structure NatNetwork.Accepted (nat : NatNetwork) : Prop where
  prefixLen : nat.subnet.prefixLen ≤ 30
  gateway : nat.subnet.contains nat.gateway
  guestIp : nat.subnet.contains nat.guestIp
  distinct : nat.gateway ≠ nat.guestIp
  dns : nat.dns.length ≤ maxDnsServers

theorem NatNetwork.accepted {subnet gateway guestIp : String} {dns : List String}
    (h : NatNetwork.tryNew parsers subnet gateway guestIp dns = .ok nat) : nat.Accepted := by
  simp only [tryNew, bind_eq_ok] at h
  obtain ⟨net, -, gatewayAddress, -, guestAddress, -, servers, hdns, hrest⟩ := h
  rw [← bind_eq_ok, check_bind_eq_ok, pure_eq_ok] at hrest
  obtain ⟨hvalid, rfl⟩ := hrest
  simp only [NatNetwork.validate, validateEndpoint, check_bind_eq_ok, failIf_eq_ok, not_not] at hvalid
  obtain ⟨⟨hnarrow, hgateway, -⟩, ⟨-, hguest, -⟩, hdistinct⟩ := hvalid
  refine ⟨UInt8.not_lt.1 hnarrow, hgateway, hguest, hdistinct, ?_⟩
  have hlength := parseDns_length (Nat.zero_le _) hdns
  rwa [Nat.zero_add] at hlength

end Network

/-! ## The boot message -/

section Boot

inductive LaunchError
  | protocol (cause : Report)
  | ipv6Dns (index : Nat) (address : Block 16)
  | deviceIndex (index : Nat)

def dnsOctets (index : Nat) : List IpAddr → Except LaunchError (List Ipv4)
  | [] => return []
  | .v4 address :: rest => do
    let others ← dnsOctets (index + 1) rest
    return address :: others
  | .v6 address :: _ => throw (.ipv6Dns index address)

def guestNetworkConfig (nat : NatNetwork) : Except LaunchError GuestNetworkConfigV1 := do
  let dns ← dnsOctets 0 nat.dns
  (GuestNetworkConfigV1.new nat.guestIp nat.gateway nat.subnet.prefixLen dns).mapError .protocol

/-- The instructions for the attached disks from the one of the given index on; each comes
with whether the launch created its file. -/
def bootDisks (index : Nat) : List (Bool × DiskSpec) → Except LaunchError (List GuestDiskConfigV1)
  | [] => return []
  | (created, spec) :: rest => do
    failIf (2 ^ 16 ≤ index) (.deviceIndex index)
    let disk ← (GuestDiskConfigV1.new (UInt16.ofNat index) spec.guestMount.path created).mapError
      .protocol
    let others ← bootDisks (index + 1) rest
    return disk :: others

def bootNetwork : Option NatNetwork → Except LaunchError (Option GuestNetworkConfigV1)
  | none => return none
  | some nat => do
    let network ← guestNetworkConfig nat
    return some network

def buildBootConfig (vmId : Block 16) (capability hostNonce : Block 32) (attached : List Bool)
    (network : Option NatNetwork) (disks : List DiskSpec) (bootstrap : Option BootstrapConfigV1) :
    Except LaunchError BootConfigV1 := do
  let network ← bootNetwork network
  let disks ← bootDisks 0 (attached.zip disks)
  let config ← (BootConfigV1.new vmId capability hostNonce network disks).mapError .protocol
  match bootstrap with
  | none => return config
  | some bootstrap => (config.withOptionalBootstrap (some bootstrap)).mapError .protocol

theorem dnsOctets_v4 (index : Nat) (servers : List Ipv4) :
    dnsOctets index (servers.map .v4) = .ok servers := by
  induction servers generalizing index with
  | nil => rfl
  | cons server rest ih =>
    rw [map_cons, dnsOctets, ih]
    rfl

theorem mask_eq : ∀ n < 31, 0 < n →
    ((0xffffffff : UInt32) <<< (32 - (UInt8.ofNat n).toUInt32)).toBitVec =
      BitVec.allOnes 32 <<< (32 - n) := by
  decide +kernel

theorem masked_eq {a b : Ipv4} {k : Nat} (h : Ipv4.value a / 2 ^ k = Ipv4.value b / 2 ^ k)
    {mask : UInt32} (hmask : mask.toBitVec = BitVec.allOnes 32 <<< k) :
    ipv4U32 a &&& mask = ipv4U32 b &&& mask := by
  rw [← UInt32.toBitVec_inj, UInt32.toBitVec_and, UInt32.toBitVec_and, hmask]
  apply BitVec.eq_of_getLsbD_eq
  intro i hi
  by_cases hlow : i < k
  · simp [hlow]
  · have hbit : (Ipv4.value a).testBit i = (Ipv4.value b).testBit i := by
      have hshift := congrArg (·.testBit (i - k)) h
      simp only [Nat.testBit_div_two_pow] at hshift
      rwa [show i - k + k = i by omega] at hshift
    have hvalue : (ipv4U32 a).toBitVec.getLsbD i = (ipv4U32 b).toBitVec.getLsbD i := by
      simp only [ipv4U32, UInt32.toBitVec_ofNat', BitVec.getLsbD_ofNat]
      exact congrArg _ hbit
    simp only [BitVec.getLsbD_and, hvalue]

variable {servers : List Ipv4} {entries : List (Bool × DiskSpec)} {nat : NatNetwork}

theorem NatNetwork.Accepted.guest_iff (h : nat.Accepted) (hdns : nat.dns = servers.map .v4) :
    GuestNetworkConfigV1.validate ⟨nat.guestIp, nat.gateway, nat.subnet.prefixLen, servers⟩ =
      .ok () ↔ 1 ≤ nat.subnet.prefixLen := by
  have hhigh : nat.subnet.prefixLen.toNat ≤ 30 := UInt8.le_iff_toNat_le.1 h.prefixLen
  have hne : nat.subnet.prefixLen ≠ 32 := by
    intro heq
    rw [heq] at hhigh
    exact absurd hhigh (by decide)
  have hservers : servers.length ≤ 8 := by
    have hlength := h.dns
    rwa [hdns, length_map] at hlength
  simp only [GuestNetworkConfigV1.validate, check_bind_eq_ok, failIf_eq_ok, not_not]
  refine ⟨fun hvalid => hvalid.1.1, fun hnarrow => ⟨⟨hnarrow, ?_⟩, fun heq => h.distinct heq.symm,
    ?_, ?_⟩⟩
  · rw [UInt8.le_iff_toNat_le]
    exact hhigh.trans (by decide)
  · rw [mask, if_neg hne]
    refine masked_eq (h.guestIp.div_eq.trans h.gateway.div_eq.symm) ?_
    have hmask := mask_eq _ (Nat.lt_succ_of_le hhigh) (UInt8.le_iff_toNat_le.1 hnarrow)
    rwa [UInt8.ofNat_toNat] at hmask
  · rw [Protocol.maxDnsServers]
    omega

theorem guestNetworkConfig_eq_ok (h : nat.Accepted) (hdns : nat.dns = servers.map .v4)
    {network : GuestNetworkConfigV1} : guestNetworkConfig nat = .ok network ↔
      1 ≤ nat.subnet.prefixLen ∧
        network = ⟨nat.guestIp, nat.gateway, nat.subnet.prefixLen, servers⟩ := by
  rw [guestNetworkConfig, hdns, dnsOctets_v4]
  change Except.mapError _ (new _ _ _ servers) = _ ↔ _
  rw [mapError_eq_ok, GuestNetworkConfigV1.new, checked_eq_ok, ← h.guest_iff hdns]
  refine and_congr_left fun heq => ?_
  rw [heq]

theorem utf8_eq_flatMap (text : String) : utf8 text = text.toList.flatMap String.utf8EncodeChar := by
  obtain ⟨chars, rfl⟩ : ∃ chars, text = String.ofList chars := ⟨text.toList, by simp⟩
  simp [utf8, utf8Encode]

theorem guestDisk_validate_iff {mount : GuestMount} {index : UInt16} {created : Bool} :
    GuestDiskConfigV1.validate ⟨index, mount.path, created⟩ = .ok () ↔
      (utf8 mount.path).length ≤ maxMountPathBytes := by
  refine ⟨GuestDiskConfigV1.mountPath_le_of_validate, fun hshort => ?_⟩
  have hvalid := mount.valid
  simp only [checkGuestMount, check_bind_eq_ok, failIf_eq_ok, not_not] at hvalid
  obtain ⟨-, hhead, -, -, hchars⟩ := hvalid
  obtain ⟨rest, hrest⟩ : ∃ rest, mount.path.toList = '/' :: rest := by
    cases htext : mount.path.toList with
    | nil => simp [htext] at hhead
    | cons c rest => exact ⟨rest, by simpa [htext] using hhead⟩
  have hbytes : utf8 mount.path = 0x2f :: rest.flatMap String.utf8EncodeChar := by
    rw [utf8_eq_flatMap, hrest]
    rfl
  have hzero : 0 ∉ utf8 mount.path := by
    rw [utf8_eq_flatMap, mem_flatMap]
    rintro ⟨c, hc, hmem⟩
    refine hchars (any_eq_true.2 ⟨c, hc, ?_⟩)
    simp [invalidChar, Boot.GuestPath.zero_mem_utf8EncodeChar hmem]
  simp only [GuestDiskConfigV1.validate, failIf_eq_ok, not_or, not_not]
  refine ⟨?_, ?_, hzero, Nat.not_lt.2 hshort⟩
  · rw [hbytes]
    exact cons_ne_nil _ _
  · rw [hbytes]
    rfl

def instruction (entry : (Bool × DiskSpec) × Nat) : GuestDiskConfigV1 :=
  ⟨UInt16.ofNat entry.2, entry.1.2.guestMount.path, entry.1.1⟩

theorem bootDisks_eq_ok {index : Nat} (hindex : index ≤ 2 ^ 16) {out : List GuestDiskConfigV1} :
    bootDisks index entries = .ok out ↔ index + entries.length ≤ 2 ^ 16 ∧
      (∀ entry ∈ entries, (utf8 entry.2.guestMount.path).length ≤ maxMountPathBytes) ∧
      out = (entries.zipIdx index).map instruction := by
  induction entries generalizing index out with
  | nil =>
    rw [bootDisks, pure_eq_ok]
    exact ⟨fun h => ⟨hindex, fun _ => nofun, h.symm⟩, fun h => h.2.2.symm⟩
  | cons entry rest ih =>
    obtain ⟨created, spec⟩ := entry
    simp only [bootDisks, failIf_eq_ok, bind_eq_ok, mapError_eq_ok, pure_eq_ok,
      GuestDiskConfigV1.new, checked_eq_ok, length_cons, forall_mem_cons]
    constructor
    · rintro ⟨_, hroom, disk, ⟨hvalid, rfl⟩, others, hothers, rfl⟩
      obtain ⟨hlength, hshort, rfl⟩ := (ih (Nat.lt_of_not_le hroom)).1 hothers
      exact ⟨by omega, ⟨guestDisk_validate_iff.1 hvalid, hshort⟩, rfl⟩
    · rintro ⟨hlength, ⟨hshort, hshorts⟩, rfl⟩
      exact ⟨(), by omega, _, ⟨guestDisk_validate_iff.2 hshort, rfl⟩, _,
        (ih (by omega)).2 ⟨by omega, hshorts, rfl⟩, rfl⟩

theorem validateDisks_of_nodup {indexes : List UInt16} {paths : List String}
    {disks : List GuestDiskConfigV1} (hvalid : ∀ disk ∈ disks, disk.validate = .ok ())
    (hindexes : (indexes ++ disks.map (·.deviceIndex)).Nodup)
    (hpaths : (paths ++ disks.map (·.mountPath)).Nodup) :
    validateDisks indexes paths disks = .ok () := by
  induction disks generalizing indexes paths with
  | nil => rfl
  | cons disk rest ih =>
    simp only [validateDisks, check_bind_eq_ok, failIf_eq_ok]
    rw [map_cons] at hindexes hpaths
    refine ⟨hvalid disk mem_cons_self, ?_, ?_, ?_⟩
    · exact fun hmem => (disjoint_of_nodup_append hindexes) hmem mem_cons_self
    · exact fun hmem => (disjoint_of_nodup_append hpaths) hmem mem_cons_self
    · refine ih (fun d hd => hvalid d (mem_cons_of_mem _ hd)) ?_ ?_
      · rwa [append_assoc]
      · rwa [append_assoc]

theorem nodup_deviceIndex (h : entries.length ≤ maxDisks) :
    ((entries.zipIdx.map instruction).map (·.deviceIndex)).Nodup := by
  have hindexes : (entries.zipIdx.map instruction).map (·.deviceIndex) =
      (List.range entries.length).map UInt16.ofNat := by
    rw [range_eq_range', ← zipIdx_map_snd 0 entries, map_map, map_map]
    rfl
  rw [hindexes]
  refine List.Nodup.map_on (fun i hi j hj hij => ?_) nodup_range
  have hi' := mem_range.1 hi
  have hj' := mem_range.1 hj
  have hnat := congrArg UInt16.toNat hij
  rw [UInt16.toNat_ofNat', UInt16.toNat_ofNat'] at hnat
  unfold maxDisks at h
  omega

theorem mountPaths_sublist (attached : List Bool) (disks : List DiskSpec) :
    (((attached.zip disks).zipIdx.map instruction).map (·.mountPath)).Sublist
      (disks.map (·.guestMount.path)) := by
  have hpaths : ((attached.zip disks).zipIdx.map instruction).map (·.mountPath) =
      ((attached.zip disks).map Prod.snd).map (·.guestMount.path) := by
    rw [← zipIdx_map_fst 0 (attached.zip disks), map_map, map_map, map_map]
    simp only [zipIdx_map_fst]
    rfl
  rw [hpaths]
  refine List.Sublist.map _ ?_
  clear hpaths
  induction attached generalizing disks with
  | nil => exact nil_sublist _
  | cons created rest ih =>
    cases disks with
    | nil => exact List.Sublist.refl _
    | cons disk disks => exact (ih disks).cons_cons disk

def expectedConfig (vmId : Block 16) (capability hostNonce : Block 32) (attached : List Bool)
    (nat : NatNetwork) (servers : List Ipv4) (disks : List DiskSpec)
    (bootstrap : Option BootstrapConfigV1) : BootConfigV1 where
  version := protocolVersion
  vmId := vmId
  capability := capability
  hostNonce := hostNonce
  network := some ⟨nat.guestIp, nat.gateway, nat.subnet.prefixLen, servers⟩
  disks := (attached.zip disks).zipIdx.map instruction
  bootstrap := bootstrap

variable {vmId : Block 16} {capability hostNonce : Block 32} {attached : List Bool}
  {disks : List DiskSpec} {bootstrap : Option BootstrapConfigV1}

theorem expectedConfig_validate_iff (hnat : nat.Accepted) (hdns : nat.dns = servers.map .v4)
    (hmounts : (disks.map (·.guestMount.path)).Nodup) :
    (expectedConfig vmId capability hostNonce attached nat servers disks bootstrap).validate =
      .ok () ↔ 1 ≤ nat.subnet.prefixLen ∧ (attached.zip disks).length ≤ maxDisks ∧
        (∀ entry ∈ attached.zip disks,
          (utf8 entry.2.guestMount.path).length ≤ maxMountPathBytes) ∧
        ∀ b ∈ bootstrap, b.validate = .ok () := by
  have hcount : ((attached.zip disks).zipIdx.map instruction).length =
      (attached.zip disks).length := by
    rw [length_map, length_zipIdx]
  rw [validate_eq_ok]
  constructor
  · rintro ⟨⟨-, hnetwork, hlength, hvalid, hbootstrap⟩, -⟩
    refine ⟨(hnat.guest_iff hdns).1 (hnetwork _ rfl), hcount ▸ hlength, fun entry hentry => ?_,
      hbootstrap⟩
    obtain ⟨i, hi, rfl⟩ := getElem_of_mem hentry
    exact guestDisk_validate_iff.1 (hvalid _ (mem_map_of_mem
      (mk_mem_zipIdx_iff_getElem?.2 (getElem?_eq_getElem hi))))
  · rintro ⟨hnarrow, hlength, hshort, hbootstrap⟩
    have hvalid : ∀ disk ∈ (attached.zip disks).zipIdx.map instruction,
        disk.validate = .ok () := by
      intro disk hdisk
      obtain ⟨entry, hentry, rfl⟩ := mem_map.1 hdisk
      exact guestDisk_validate_iff.2 (hshort _ (fst_mem_of_mem_zipIdx hentry))
    refine ⟨⟨rfl, ?_, hcount.trans_le hlength, hvalid, hbootstrap⟩, ?_⟩
    · intro network hnetwork
      rw [← Option.mem_some.1 hnetwork]
      exact (hnat.guest_iff hdns).2 hnarrow
    · exact validateDisks_of_nodup hvalid (nodup_deviceIndex hlength)
        ((mountPaths_sublist attached disks).nodup hmounts)

theorem buildBootConfig_eq_ok (hnat : nat.Accepted) (hdns : nat.dns = servers.map .v4)
    (hmounts : (disks.map (·.guestMount.path)).Nodup) {config : BootConfigV1} :
    buildBootConfig vmId capability hostNonce attached (some nat) disks bootstrap = .ok config ↔
      (expectedConfig vmId capability hostNonce attached nat servers disks bootstrap).validate =
        .ok () ∧
      config = expectedConfig vmId capability hostNonce attached nat servers disks bootstrap := by
  simp only [buildBootConfig, bootNetwork, bind_eq_ok, pure_eq_ok, mapError_eq_ok, BootConfigV1.new,
    checked_eq_ok, bootDisks_eq_ok (Nat.zero_le _), guestNetworkConfig_eq_ok hnat hdns]
  constructor
  · rintro ⟨_, ⟨_, ⟨-, rfl⟩, rfl⟩, _, ⟨-, -, rfl⟩, _, ⟨hvalid, rfl⟩, hlast⟩
    cases bootstrap with
    | none =>
      cases pure_eq_ok.1 hlast
      exact ⟨hvalid, rfl⟩
    | some b =>
      obtain ⟨hvalid', rfl⟩ := checked_eq_ok.1 (mapError_eq_ok.1 hlast)
      exact ⟨hvalid', rfl⟩
  · rintro ⟨hvalid, rfl⟩
    obtain ⟨hnarrow, hlength, hshort, -⟩ := (expectedConfig_validate_iff hnat hdns hmounts).1 hvalid
    refine ⟨_, ⟨_, ⟨hnarrow, rfl⟩, rfl⟩, _, ⟨?_, hshort, rfl⟩, _,
      ⟨validate_without_bootstrap hvalid, rfl⟩, ?_⟩
    · unfold maxDisks at hlength
      omega
    · cases bootstrap with
      | none => rfl
      | some b => exact mapError_eq_ok.2 (checked_eq_ok.2 ⟨hvalid, rfl⟩)

/-- The length of the frame, from the numbers and lengths of what is put into it. -/
def bootFrameLen (servers : List Ipv4) (mounts : List String)
    (bootstrap : Option BootstrapConfigV1) : Nat :=
  97 + 4 * servers.length + (mounts.map fun mount => 5 + (utf8 mount).length).sum +
    (bootstrap.map (·.encodedLen)).getD 0

theorem length_expectedConfig :
    (expectedConfig vmId capability hostNonce attached nat servers disks
      bootstrap).configBytes.length =
        bootFrameLen servers ((attached.zip disks).map (·.2.guestMount.path)) bootstrap := by
  have hdisks : (((attached.zip disks).zipIdx.map instruction).map fun disk =>
      2 + 1 + 2 + (utf8 disk.mountPath).length) =
        ((attached.zip disks).map (·.2.guestMount.path)).map fun mount => 5 + (utf8 mount).length := by
    conv_rhs => rw [← zipIdx_map_fst 0 (attached.zip disks)]
    rw [map_map, map_map, map_map]
    rfl
  rw [length_configBytes, encodedLen, bootFrameLen]
  simp only [expectedConfig, hdisks, networkLen]
  cases bootstrap with
  | none =>
    simp [bootstrapLen]
    omega
  | some b =>
    simp [bootstrapLen]
    omega

end Boot

/-! ## Accepted configurations boot -/

/-- The guest gets the addresses of the network as they are, just if its prefix has a bit.  The
boot message is built and encoded just if, besides, at most 64 disks were attached, their mount
paths have at most 4096 bytes each, the bootstrap is valid, and the lengths add up to no more
than a frame. -/
theorem accepted_config_boots_iff (parsers : Parsers) (subnet gateway guestIp : String)
    (dns : List String) (nat : NatNetwork) (servers : List Ipv4)
    (hnat : NatNetwork.tryNew parsers subnet gateway guestIp dns = .ok nat)
    (hdns : nat.dns = servers.map .v4) (cpuUnits memoryMb : UInt64) (disks : List DiskSpec)
    (hdisks : checkConfig cpuUnits memoryMb disks = .ok ()) (vmId : Block 16)
    (capability hostNonce : Block 32) (attached : List Bool) (bootstrap : Option BootstrapConfigV1) :
    (guestNetworkConfig nat = .ok ⟨nat.guestIp, nat.gateway, nat.subnet.prefixLen, servers⟩ ↔
      1 ≤ nat.subnet.prefixLen) ∧
    ((∃ config bytes, buildBootConfig vmId capability hostNonce attached (some nat) disks bootstrap =
        .ok config ∧ config.toBytes = .ok bytes) ↔
      1 ≤ nat.subnet.prefixLen ∧ (attached.zip disks).length ≤ maxDisks ∧
        (∀ entry ∈ attached.zip disks,
          (utf8 entry.2.guestMount.path).length ≤ maxMountPathBytes) ∧
        (∀ b ∈ bootstrap, b.validate = .ok ()) ∧
        bootFrameLen servers ((attached.zip disks).map (·.2.guestMount.path)) bootstrap ≤
          maxBootConfigFrame) := by
  have haccepted := NatNetwork.accepted hnat
  have hmounts := (nodup_of_checkConfig hdisks).2
  refine ⟨(guestNetworkConfig_eq_ok haccepted hdns).trans (and_iff_left rfl), ?_⟩
  constructor
  · rintro ⟨config, bytes, hconfig, hbytes⟩
    obtain ⟨hvalid, rfl⟩ := (buildBootConfig_eq_ok haccepted hdns hmounts).1 hconfig
    obtain ⟨hfits, -, rfl⟩ := (toBytes_eq_ok _ _).1 hbytes
    obtain ⟨hnarrow, hlength, hshort, hbootstrap⟩ :=
      (expectedConfig_validate_iff haccepted hdns hmounts).1 hvalid
    exact ⟨hnarrow, hlength, hshort, hbootstrap, length_expectedConfig.symm.trans_le hfits⟩
  · rintro ⟨hnarrow, hlength, hshort, hbootstrap, hfits⟩
    have hvalid : (expectedConfig vmId capability hostNonce attached nat servers disks
        bootstrap).validate = .ok () :=
      (expectedConfig_validate_iff haccepted hdns hmounts).2 ⟨hnarrow, hlength, hshort, hbootstrap⟩
    exact ⟨_, _, (buildBootConfig_eq_ok haccepted hdns hmounts).2 ⟨hvalid, rfl⟩,
      (toBytes_eq_ok _ _).2 ⟨length_expectedConfig.trans_le hfits, hvalid, rfl⟩⟩

def octets (a b c d : UInt8) : Ipv4 := ⟨[a, b, c, d], rfl⟩

/-- The texts of two networks and their addresses, as they are read. -/
def sampleParsers : Parsers where
  subnet text :=
    if text = "10.77.0.0/24" then .ok ⟨octets 10 77 0 0, 24⟩
    else if text = "0.0.0.0/0" then .ok ⟨octets 0 0 0 0, 0⟩
    else .error "invalid IP address syntax"
  ipv4 text :=
    if text = "10.77.0.1" then .ok (octets 10 77 0 1)
    else if text = "10.77.0.10" then .ok (octets 10 77 0 10)
    else .error "invalid IPv4 address syntax"
  ip text :=
    if text = "8.8.8.8" then .ok (.v4 (octets 8 8 8 8)) else .error "invalid IP address syntax"

def sampleNat (net : Ipv4Net) : NatNetwork :=
  ⟨net, octets 10 77 0 1, octets 10 77 0 10, [.v4 (octets 8 8 8 8)]⟩

theorem length_zeros (n : Nat) : (List.replicate n (0 : UInt8)).length = n := length_replicate

def zeros (n : Nat) : Block n := ⟨List.replicate n 0, length_zeros n⟩

theorem tryNew_sample : NatNetwork.tryNew sampleParsers "10.77.0.0/24" "10.77.0.1" "10.77.0.10"
    ["8.8.8.8"] = .ok (sampleNat ⟨octets 10 77 0 0, 24⟩) := rfl

theorem default_network_boots : ∃ config bytes,
    buildBootConfig (zeros 16) (zeros 32) (zeros 32) [true]
      (some (sampleNat ⟨octets 10 77 0 0, 24⟩)) [upperDisk] none = .ok config ∧
    config.toBytes = .ok bytes := by
  have hshort : ∀ entry ∈ [true].zip [upperDisk],
      (utf8 entry.2.guestMount.path).length ≤ maxMountPathBytes := by
    decide +kernel
  exact (accepted_config_boots_iff sampleParsers "10.77.0.0/24" "10.77.0.1" "10.77.0.10"
    ["8.8.8.8"] (sampleNat ⟨octets 10 77 0 0, 24⟩) [octets 8 8 8 8] tryNew_sample rfl 1 1
    [upperDisk] rfl (zeros 16) (zeros 32) (zeros 32) [true] none).2.2
    ⟨by decide, by decide, hshort, nofun, by decide +kernel⟩

/-- The subnet `0.0.0.0/0` is accepted for the VM, and the guest's configuration refuses
its prefix. -/
theorem wide_network_refused :
    NatNetwork.tryNew sampleParsers "0.0.0.0/0" "10.77.0.1" "10.77.0.10" ["8.8.8.8"] =
      .ok (sampleNat ⟨octets 0 0 0 0, 0⟩) ∧ guestNetworkConfig (sampleNat ⟨octets 0 0 0 0, 0⟩) =
      .error (.protocol (invalidValue "IPv4 prefix length must be between 1 and 32")) :=
  ⟨rfl, rfl⟩

end Jyth.VmModel
