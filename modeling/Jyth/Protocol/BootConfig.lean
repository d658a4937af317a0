import Jyth.Protocol.Wire

/-!
# The boot configuration message `BootConfigV1`

The host-to-guest COM1 message of `protocol/src/auth.rs`: its validation, its
encoder `toBytes` and its decoder `tryFrom`.  Encoder and decoder are related
through one description of the frame, `configBytes`.

    tryFrom bytes = .ok c  ↔  bytes.length ≤ 64 KiB ∧ c valid ∧ bytes = configBytes c
    toBytes c     = .ok bytes  ↔  the same three facts

`encodedLen` forgets the presence byte of a bootstrap command
(`length_configBytes`).
-/

namespace Jyth.Protocol

open Format List WireWriter

def maxDnsServers : Nat := 16
def maxDisks : Nat := 64
def maxMountPathBytes : Nat := 4096
def maxBootstrapArgs : Nat := 16
def maxBootstrapStringBytes : Nat := 4096

def bootConfigTag : UInt8 := 0x10

/-! ## Guest network -/

abbrev Ipv4 := Block 4

def ipv4U32 (a : Ipv4) : UInt32 := UInt32.ofNat (ofBE a.1)

structure GuestNetworkConfigV1 where
  guestIp : Ipv4
  gateway : Ipv4
  prefixLen : UInt8
  dns : List Ipv4
deriving DecidableEq

namespace GuestNetworkConfigV1

def mask (c : GuestNetworkConfigV1) : UInt32 :=
  if c.prefixLen = 32 then 0xffffffff else 0xffffffff <<< (32 - c.prefixLen.toUInt32)

def validate (c : GuestNetworkConfigV1) : Except Report Unit := do
  failIf (¬ (1 ≤ c.prefixLen ∧ c.prefixLen ≤ 32))
    (invalidValue "IPv4 prefix length must be between 1 and 32")
  failIf (c.guestIp = c.gateway) (invalidValue "guest IP and gateway must differ")
  failIf (ipv4U32 c.guestIp &&& c.mask ≠ ipv4U32 c.gateway &&& c.mask)
    (invalidValue "guest IP and gateway must share a subnet")
  failIf (maxDnsServers < c.dns.length) (invalidValue "too many DNS servers")

def new (guestIp gateway : Ipv4) (prefixLen : UInt8) (dns : List Ipv4) :
    Except Report GuestNetworkConfigV1 :=
  checked validate ⟨guestIp, gateway, prefixLen, dns⟩

variable {c : GuestNetworkConfigV1}

theorem dns_le_of_validate (h : c.validate = .ok ()) : c.dns.length ≤ maxDnsServers := by
  simp only [validate, check_bind_eq_ok, failIf_eq_ok] at h
  omega

def bytes (c : GuestNetworkConfigV1) : Bytes :=
  c.guestIp.1 ++ c.gateway.1 ++ [c.prefixLen] ++ [UInt8.ofNat c.dns.length]
    ++ c.dns.flatMap Subtype.val

def push (w : WireWriter) (c : GuestNetworkConfigV1) : Except Fault WireWriter := do
  let w := ((w.pushBytes c.guestIp.1).pushBytes c.gateway.1).pushU8 c.prefixLen
  let count ← expectU8 c.dns.length "DNS count is bounded"
  return c.dns.foldl (fun w dns => w.pushBytes dns.1) (w.pushU8 count)

def take : WireReader GuestNetworkConfigV1 := do
  let guestIp ← WireReader.takeArray 4
  let gateway ← WireReader.takeArray 4
  let prefixLen ← WireReader.takeU8
  let dnsCount ← WireReader.takeU8
  if maxDnsServers < dnsCount.toNat then throw (invalidValue "too many DNS servers")
  else do
    let dns ← times (WireReader.takeArray 4) dnsCount.toNat
    new guestIp gateway prefixLen dns

theorem foldl_pushBytes (dns : List Ipv4) (w : WireWriter) :
    dns.foldl (fun w d => w.pushBytes d.1) w = w ++ dns.flatMap Subtype.val := by
  induction dns generalizing w with
  | nil => simp
  | cons d dns ih =>
    rw [foldl_cons, ih]
    simp [pushBytes]

theorem push_eq (h : c.validate = .ok ()) (w : WireWriter) : push w c = .ok (w ++ c.bytes) := by
  have hdns : c.dns.length < 2 ^ 8 := by
    have := dns_le_of_validate h
    unfold maxDnsServers at this
    omega
  unfold push expectU8
  rw [if_pos hdns]
  show Except.ok _ = _
  rw [foldl_pushBytes]
  simp [pushBytes, pushU8, bytes]

theorem exact_take : Exact take (fun c bs => c.validate = .ok () ∧ bs = c.bytes) := by
  have hdns : Exact (WireReader.takeArray 4) (fun d bs => True ∧ bs = d.1) :=
    (Exact.takeBlock _ 4).congr (by simp)
  refine ((Exact.takeBlock _ 4).bind fun guestIp => (Exact.takeBlock _ 4).bind fun gateway =>
    (Exact.takeByte _).bind fun prefixLen => (Exact.takeByte _).bind fun count =>
      Exact.reject _ fun _ => (hdns.times _).bind fun dns => Exact.lift _).congr fun c bs => ?_
  simp only [existsAndEq, true_and, and_assoc, append_nil, not_lt]
  constructor
  · rintro ⟨guestIp, gateway, prefixLen, count, dns, -, hlen, -, hnew, rfl⟩
    obtain ⟨hv, rfl⟩ := checked_eq_ok.1 hnew
    exact ⟨hv, by simp [bytes, hlen]⟩
  · rintro ⟨hv, rfl⟩
    have hle := dns_le_of_validate hv
    have hn : (UInt8.ofNat c.dns.length).toNat = c.dns.length := by
      rw [UInt8.toNat_ofNat']
      unfold maxDnsServers at hle
      omega
    exact ⟨c.guestIp, c.gateway, c.prefixLen, _, c.dns, by omega, hn.symm, by simp,
      checked_eq_ok.2 ⟨hv, rfl⟩, by simp [bytes]⟩

end GuestNetworkConfigV1

/-! ## Disks -/

structure GuestDiskConfigV1 where
  deviceIndex : UInt16
  mountPath : String
  initializes : Bool
deriving DecidableEq

namespace GuestDiskConfigV1

def validate (c : GuestDiskConfigV1) : Except Report Unit :=
  failIf (utf8 c.mountPath = [] ∨ (utf8 c.mountPath).head? ≠ some 0x2f ∨ 0 ∈ utf8 c.mountPath ∨
      maxMountPathBytes < (utf8 c.mountPath).length)
    (invalidValue "disk mount path must be a bounded absolute path")

def new (deviceIndex : UInt16) (mountPath : String) (initializes : Bool) :
    Except Report GuestDiskConfigV1 :=
  checked validate ⟨deviceIndex, mountPath, initializes⟩

theorem mountPath_le_of_validate {c : GuestDiskConfigV1} (h : c.validate = .ok ()) :
    (utf8 c.mountPath).length ≤ maxMountPathBytes := by
  simp only [validate, failIf_eq_ok, not_or] at h
  omega

def bytes (c : GuestDiskConfigV1) : Bytes :=
  leBytes c.deviceIndex ++ [if c.initializes then 1 else 0] ++ stringBytes c.mountPath

def push (w : WireWriter) (c : GuestDiskConfigV1) : Except Fault WireWriter :=
  ((w.pushU16 c.deviceIndex).pushU8 (if c.initializes then 1 else 0)).pushText
    "mount path is bounded below u16" c.mountPath

def takeInitialize : WireReader Bool := do
  let flag ← WireReader.takeU8
  orThrow (invalidFrame "invalid disk initialize flag")
    (if flag = 0 then some false else if flag = 1 then some true else none)

def take : WireReader GuestDiskConfigV1 := do
  let deviceIndex ← WireReader.takeU16
  let initializes ← takeInitialize
  let mountPath ← WireReader.takeText (invalidValue "disk mount path exceeds its limit")
    (invalidValue "disk mount path is not UTF-8") maxMountPathBytes
  new deviceIndex mountPath initializes

theorem push_eq {c : GuestDiskConfigV1} (h : c.validate = .ok ()) (w : WireWriter) :
    push w c = .ok (w ++ c.bytes) := by
  have hle := mountPath_le_of_validate h
  unfold maxMountPathBytes at hle
  rw [push, pushText_eq _ _ _ (by omega)]
  simp [pushU16, pushU8, bytes]

theorem exact_takeInitialize : Exact takeInitialize (fun b bs => bs = [if b then 1 else 0]) := by
  refine ((Exact.takeByte _).bind fun flag => Exact.orThrow _ _).congr fun b bs => ?_
  constructor
  · rintro ⟨flag, _, _, rfl, ⟨h, rfl⟩, rfl⟩
    split at h
    · next h0 => cases h; simp [h0]
    · split at h
      · next h1 => cases h; simp [h1]
      · cases h
  · rintro rfl
    refine ⟨if b then 1 else 0, _, _, rfl, ⟨?_, rfl⟩, by simp⟩
    cases b <;> rfl

theorem exact_take : Exact take (fun c bs => c.validate = .ok () ∧ bs = c.bytes) := by
  refine ((Exact.takeLE _).bind fun index => exact_takeInitialize.bind fun init =>
    (exact_takeText _ _ maxMountPathBytes (by decide)).bind fun path =>
      Exact.lift _).congr fun c bs => ?_
  simp only [existsAndEq, true_and, and_assoc, append_nil]
  constructor
  · rintro ⟨index, init, path, -, hnew, rfl⟩
    obtain ⟨hv, rfl⟩ := checked_eq_ok.1 hnew
    exact ⟨hv, by simp [bytes]⟩
  · rintro ⟨hv, rfl⟩
    exact ⟨c.deviceIndex, c.initializes, c.mountPath, mountPath_le_of_validate hv,
      checked_eq_ok.2 ⟨hv, rfl⟩, by simp [bytes]⟩

end GuestDiskConfigV1

/-! ## Bootstrap command -/

structure BootstrapConfigV1 where
  program : String
  args : List String
  artifact : String
deriving DecidableEq

def validateBootstrapPath (path : String) (label : String) : Except Report Unit :=
  failIf (utf8 path = [] ∨ (utf8 path).head? ≠ some 0x2f ∨ 0 ∈ utf8 path ∨
      maxBootstrapStringBytes < (utf8 path).length ∨ [0x2e, 0x2e] ∈ (utf8 path).splitOn 0x2f)
    (invalidValue label)

namespace BootstrapConfigV1

def validateArgument (argument : String) : Except Report Unit := do
  failIf (0 ∈ utf8 argument) (invalidValue "bootstrap argument contains a NUL byte")
  failIf (maxBootstrapStringBytes < (utf8 argument).length)
    (invalidValue "bootstrap argument exceeds its size limit")

def validateArguments : List String → Except Report Unit
  | [] => return
  | argument :: args => do
    validateArgument argument
    validateArguments args

def validate (c : BootstrapConfigV1) : Except Report Unit := do
  validateBootstrapPath c.program "bootstrap program"
  validateBootstrapPath c.artifact "bootstrap artifact"
  failIf (maxBootstrapArgs < c.args.length) (invalidValue "too many bootstrap arguments")
  validateArguments c.args

def new (program : String) (args : List String) (artifact : String) :
    Except Report BootstrapConfigV1 :=
  checked validate ⟨program, args, artifact⟩

def encodedLen (c : BootstrapConfigV1) : Nat :=
  2 + (utf8 c.program).length + 1 + (c.args.map fun argument => 2 + (utf8 argument).length).sum
    + 2 + (utf8 c.artifact).length

/-- The texts and the number of arguments are within their limits. -/
structure Bounded (c : BootstrapConfigV1) : Prop where
  program : (utf8 c.program).length ≤ maxBootstrapStringBytes
  count : c.args.length ≤ maxBootstrapArgs
  args : ∀ argument ∈ c.args, (utf8 argument).length ≤ maxBootstrapStringBytes
  artifact : (utf8 c.artifact).length ≤ maxBootstrapStringBytes

theorem le_of_validateBootstrapPath {path label : String}
    (h : validateBootstrapPath path label = .ok ()) :
    (utf8 path).length ≤ maxBootstrapStringBytes := by
  simp only [validateBootstrapPath, failIf_eq_ok, not_or] at h
  omega

theorem le_of_validateArguments {args : List String} (h : validateArguments args = .ok ()) :
    ∀ argument ∈ args, (utf8 argument).length ≤ maxBootstrapStringBytes := by
  induction args with
  | nil => simp
  | cons a args ih =>
    simp only [validateArguments, validateArgument, check_bind_eq_ok, failIf_eq_ok] at h
    obtain ⟨⟨-, ha⟩, hargs⟩ := h
    intro argument hmem
    rcases mem_cons.1 hmem with rfl | hmem
    · omega
    · exact ih hargs argument hmem

theorem bounded_of_validate {c : BootstrapConfigV1} (h : c.validate = .ok ()) : c.Bounded := by
  simp only [validate, check_bind_eq_ok, failIf_eq_ok] at h
  obtain ⟨hprogram, hartifact, hcount, hargs⟩ := h
  exact ⟨le_of_validateBootstrapPath hprogram, by omega, le_of_validateArguments hargs,
    le_of_validateBootstrapPath hartifact⟩

def bytes (c : BootstrapConfigV1) : Bytes :=
  stringBytes c.program ++ [UInt8.ofNat c.args.length] ++ c.args.flatMap stringBytes
    ++ stringBytes c.artifact

def push (w : WireWriter) (c : BootstrapConfigV1) : Except Fault WireWriter := do
  let w ← w.pushString c.program
  let count ← expectU8 c.args.length "argument count bounded"
  let w ← c.args.foldlM WireWriter.pushString (w.pushU8 count)
  w.pushString c.artifact

def take : WireReader BootstrapConfigV1 := do
  let program ← WireReader.takeString maxBootstrapStringBytes
  let argumentCount ← WireReader.takeU8
  if maxBootstrapArgs < argumentCount.toNat then
    throw (invalidValue "too many bootstrap arguments")
  else do
    let args ← times (WireReader.takeString maxBootstrapStringBytes) argumentCount.toNat
    let artifact ← WireReader.takeString maxBootstrapStringBytes
    new program args artifact

theorem push_eq {c : BootstrapConfigV1} (h : c.Bounded) (w : WireWriter) :
    push w c = .ok (w ++ c.bytes) := by
  have hstring : ∀ s : String, (utf8 s).length ≤ maxBootstrapStringBytes → ∀ w : WireWriter,
      w.pushString s = .ok (w ++ stringBytes s) := by
    intro s hs w
    unfold maxBootstrapStringBytes at hs
    exact pushText_eq w _ s (by omega)
  have hcount : c.args.length < 2 ^ 8 := by
    have := h.count
    unfold maxBootstrapArgs at this
    omega
  unfold push expectU8
  rw [hstring _ h.program, if_pos hcount]
  show (c.args.foldlM pushString _ >>= fun w => w.pushString c.artifact) = _
  rw [foldlM_push _ stringBytes _ fun a ha => hstring a (h.args a ha)]
  show pushString _ _ = _
  rw [hstring _ h.artifact]
  simp [pushU8, bytes]

theorem exact_take : Exact take (fun c bs => c.validate = .ok () ∧ bs = c.bytes) := by
  have hstring := exact_takeText (invalidValue "versioned string exceeds its size limit")
    (invalidValue "versioned string is not UTF-8") maxBootstrapStringBytes (by decide)
  refine (hstring.bind fun program => (Exact.takeByte _).bind fun count => Exact.reject _ fun _ =>
    (hstring.times _).bind fun args => hstring.bind fun artifact =>
      Exact.lift _).congr fun c bs => ?_
  simp only [existsAndEq, true_and, and_assoc, append_nil, not_lt]
  constructor
  · rintro ⟨program, count, args, artifact, -, -, hlen, -, -, hnew, rfl⟩
    obtain ⟨hv, rfl⟩ := checked_eq_ok.1 hnew
    exact ⟨hv, by simp [bytes, hlen]⟩
  · rintro ⟨hv, rfl⟩
    have hb := bounded_of_validate hv
    have hle := hb.count
    have hn : (UInt8.ofNat c.args.length).toNat = c.args.length := by
      rw [UInt8.toNat_ofNat']
      unfold maxBootstrapArgs at hle
      omega
    exact ⟨c.program, _, c.args, c.artifact, hb.program, by omega, hn.symm, hb.args, hb.artifact,
      checked_eq_ok.2 ⟨hv, rfl⟩, by simp [bytes]⟩

end BootstrapConfigV1

/-! ## The whole message -/

/-- What the host tells the guest at boot. -/
structure BootConfigV1 where
  version : UInt16
  vmId : Block 16
  capability : Block 32
  hostNonce : Block 32
  network : Option GuestNetworkConfigV1
  disks : List GuestDiskConfigV1
  bootstrap : Option BootstrapConfigV1
deriving DecidableEq

/-- The disk loop of `validate`: `indexes` and `paths` are those already seen. -/
def validateDisks (indexes : List UInt16) (paths : List String) :
    List GuestDiskConfigV1 → Except Report Unit
  | [] => return
  | disk :: disks => do
    disk.validate
    failIf (disk.deviceIndex ∈ indexes) (invalidValue "duplicate disk device index")
    failIf (disk.mountPath ∈ paths) (invalidValue "duplicate disk mount path")
    validateDisks (indexes ++ [disk.deviceIndex]) (paths ++ [disk.mountPath]) disks

def validateOption {α : Type} (validate : α → Except Report Unit) : Option α → Except Report Unit
  | some a => validate a
  | none => return

namespace BootConfigV1

def validate (c : BootConfigV1) : Except Report Unit := do
  failIf (c.version ≠ protocolVersion) versionMismatch
  validateOption GuestNetworkConfigV1.validate c.network
  failIf (maxDisks < c.disks.length) (invalidValue "too many disk entries")
  validateDisks [] [] c.disks
  validateOption BootstrapConfigV1.validate c.bootstrap

def new (vmId : Block 16) (capability hostNonce : Block 32)
    (network : Option GuestNetworkConfigV1) (disks : List GuestDiskConfigV1) :
    Except Report BootConfigV1 :=
  checked validate ⟨protocolVersion, vmId, capability, hostNonce, network, disks, none⟩

def withOptionalBootstrap (c : BootConfigV1) (bootstrap : Option BootstrapConfigV1) :
    Except Report BootConfigV1 :=
  checked validate { c with bootstrap }

def networkLen : Option GuestNetworkConfigV1 → Nat
  | none => 1
  | some network => 1 + 4 + 4 + 1 + 1 + network.dns.length * 4

def bootstrapLen : Option BootstrapConfigV1 → Nat
  | none => 1
  | some bootstrap => bootstrap.encodedLen

def encodedLen (c : BootConfigV1) : Nat :=
  1 + 2 + 16 + 32 + 32 + networkLen c.network + 2
    + (c.disks.map fun disk => 2 + 1 + 2 + (utf8 disk.mountPath).length).sum
    + bootstrapLen c.bootstrap

/-- A presence byte and, if present, the section after it. -/
def pushOption {α : Type} (push : WireWriter → α → Except Fault WireWriter) (w : WireWriter) :
    Option α → Except Fault WireWriter
  | some a => push (w.pushU8 1) a
  | none => return w.pushU8 0

def toBytes (c : BootConfigV1) : Except Fault Bytes := do
  orError c.validate
  orError (failIf (maxBootConfigFrame < c.encodedLen)
    (invalidFrame "encoded boot configuration exceeds its frame limit"))
  let w : WireWriter := []
  let w := (((w.pushU8 bootConfigTag).pushU16 c.version).pushBytes c.vmId.1).pushBytes
    c.capability.1
  let w := w.pushBytes c.hostNonce.1
  let w ← pushOption GuestNetworkConfigV1.push w c.network
  let count ← expectU16 c.disks.length "disk count is bounded"
  let w ← c.disks.foldlM GuestDiskConfigV1.push (w.pushU16 count)
  let w ← pushOption BootstrapConfigV1.push w c.bootstrap
  orError (w.finish maxBootConfigFrame)

/-- The fields of a frame as `try_from` reads them, before its final validation. -/
def takeFields : WireReader BootConfigV1 := do
  let tag ← WireReader.takeU8
  if tag ≠ bootConfigTag then throw (invalidFrame "unexpected boot configuration tag")
  else do
    let version ← WireReader.takeU16
    if version ≠ protocolVersion then throw versionMismatch
    else do
      let vmId ← WireReader.takeArray 16
      let capability ← WireReader.takeArray 32
      let hostNonce ← WireReader.takeArray 32
      let network ← presence truncated (fun _ => invalidFrame "invalid network presence flag")
        GuestNetworkConfigV1.take
      let diskCount ← WireReader.takeU16
      if maxDisks < diskCount.toNat then throw (invalidValue "too many disk entries")
      else do
        let disks ← times GuestDiskConfigV1.take diskCount.toNat
        let bootstrap ← presence truncated
          (fun _ => invalidFrame "invalid bootstrap presence flag") BootstrapConfigV1.take
        pure ⟨version, vmId, capability, hostNonce, network, disks, bootstrap⟩

def tryFrom (bytes : Bytes) : Except Report BootConfigV1 := do
  failIf (maxBootConfigFrame < bytes.length)
    (invalidFrame "boot configuration exceeds its frame limit")
  let fields ← runAll (invalidFrame "trailing bytes in versioned frame") takeFields bytes
  let config ← new fields.vmId fields.capability fields.hostNonce fields.network fields.disks
  config.withOptionalBootstrap fields.bootstrap

/-! ### The frame -/

/-- The frame of a configuration. -/
def configBytes (c : BootConfigV1) : Bytes :=
  [bootConfigTag] ++ leBytes c.version ++ c.vmId.1 ++ c.capability.1 ++ c.hostNonce.1
    ++ presenceBytes GuestNetworkConfigV1.bytes c.network
    ++ leBytes (UInt16.ofNat c.disks.length) ++ c.disks.flatMap GuestDiskConfigV1.bytes
    ++ presenceBytes BootstrapConfigV1.bytes c.bootstrap

/-- What the sections of a frame are checked for while they are read. -/
structure SectionsValid (c : BootConfigV1) : Prop where
  version : c.version = protocolVersion
  network : ∀ network ∈ c.network, network.validate = .ok ()
  count : c.disks.length ≤ maxDisks
  disks : ∀ disk ∈ c.disks, disk.validate = .ok ()
  bootstrap : ∀ bootstrap ∈ c.bootstrap, bootstrap.validate = .ok ()

variable {c : BootConfigV1} {α : Type}

theorem validateOption_eq_ok (validate : α → Except Report Unit) (o : Option α) :
    validateOption validate o = .ok () ↔ ∀ a ∈ o, validate a = .ok () := by
  cases o with
  | none => simp [validateOption, pure, Except.pure]
  | some a => simp [validateOption]

theorem validate_of_validateDisks {disks : List GuestDiskConfigV1} {indexes : List UInt16}
    {paths : List String} (h : validateDisks indexes paths disks = .ok ()) :
    ∀ disk ∈ disks, disk.validate = .ok () := by
  induction disks generalizing indexes paths with
  | nil => simp
  | cons d disks ih =>
    simp only [validateDisks, check_bind_eq_ok] at h
    obtain ⟨hd, -, -, hdisks⟩ := h
    intro disk hmem
    rcases mem_cons.1 hmem with rfl | hmem
    · exact hd
    · exact ih hdisks disk hmem

theorem validate_eq_ok (c : BootConfigV1) :
    c.validate = .ok () ↔ c.SectionsValid ∧ validateDisks [] [] c.disks = .ok () := by
  simp only [validate, check_bind_eq_ok, failIf_eq_ok, validateOption_eq_ok, not_not, not_lt]
  constructor
  · rintro ⟨hversion, hnetwork, hcount, hdisks, hbootstrap⟩
    exact ⟨⟨hversion, hnetwork, hcount, validate_of_validateDisks hdisks, hbootstrap⟩, hdisks⟩
  · rintro ⟨⟨hversion, hnetwork, hcount, -, hbootstrap⟩, hdisks⟩
    exact ⟨hversion, hnetwork, hcount, hdisks, hbootstrap⟩

theorem validate_without_bootstrap (h : c.validate = .ok ()) :
    ({ c with bootstrap := none } : BootConfigV1).validate = .ok () := by
  rw [validate_eq_ok] at h ⊢
  exact ⟨⟨h.1.version, h.1.network, h.1.count, h.1.disks, by simp⟩, h.2⟩

theorem toNat_diskCount (h : c.SectionsValid) :
    (UInt16.ofNat c.disks.length).toNat = c.disks.length := by
  have := h.count
  rw [UInt16.toNat_ofNat']
  unfold maxDisks at this
  omega

theorem exact_takeFields : Exact takeFields (fun c bs => c.SectionsValid ∧ bs = c.configBytes) := by
  refine ((Exact.takeByte _).bind fun tag => Exact.reject _ fun _ => (Exact.takeLE _).bind
    fun version => Exact.reject _ fun _ => (Exact.takeBlock _ 16).bind fun vmId =>
      (Exact.takeBlock _ 32).bind fun capability => (Exact.takeBlock _ 32).bind fun nonce =>
        (Exact.presence _ _ GuestNetworkConfigV1.exact_take).bind fun network =>
          (Exact.takeLE _).bind fun count => Exact.reject _ fun _ =>
            (GuestDiskConfigV1.exact_take.times _).bind fun disks =>
              (Exact.presence _ _ BootstrapConfigV1.exact_take).bind fun bootstrap =>
                Exact.pure _).congr fun c bs => ?_
  simp only [existsAndEq, true_and, and_assoc, append_nil, not_not, not_lt]
  constructor
  · rintro ⟨vmId, capability, nonce, network, count, disks, bootstrap, hnetwork, hcount, hlen,
      hdisks, hbootstrap, rfl, rfl⟩
    exact ⟨⟨rfl, hnetwork, hlen ▸ hcount, hdisks, hbootstrap⟩, by simp [configBytes, hlen]⟩
  · rintro ⟨h, rfl⟩
    have hn := toNat_diskCount h
    refine ⟨c.vmId, c.capability, c.hostNonce, c.network, _, c.disks, c.bootstrap, h.network,
      hn.symm ▸ h.count, hn.symm, h.disks, h.bootstrap, ?_, by simp [configBytes, h.version]⟩
    rw [← h.version]

theorem tryFrom_eq_ok (bytes : Bytes) (c : BootConfigV1) : tryFrom bytes = .ok c ↔
      bytes.length ≤ maxBootConfigFrame ∧ c.validate = .ok () ∧ bytes = c.configBytes := by
  rw [tryFrom, check_bind_eq_ok, failIf_eq_ok, not_lt]
  simp only [new, withOptionalBootstrap, bind_eq_ok, checked_eq_ok, exact_takeFields.runAll_eq_ok]
  constructor
  · rintro ⟨hlen, fields, ⟨hfields, rfl⟩, _, ⟨-, rfl⟩, hv, rfl⟩
    refine ⟨hlen, hv, ?_⟩
    have hversion : protocolVersion = fields.version := hfields.version.symm
    rw [hversion]
  · rintro ⟨hlen, hv, rfl⟩
    have hs := ((validate_eq_ok c).1 hv).1
    have hversion : protocolVersion = c.version := hs.version.symm
    refine ⟨hlen, c, ⟨hs, rfl⟩, _, ⟨?_, rfl⟩, hv, by rw [hversion]⟩
    rw [hversion]
    exact validate_without_bootstrap hv

/-! ### The encoder -/

theorem pushOption_eq (push : WireWriter → α → Except Fault WireWriter)
    (enc : α → Bytes) (o : Option α) (h : ∀ a ∈ o, ∀ w, push w a = .ok (w ++ enc a))
    (w : WireWriter) : pushOption push w o = .ok (w ++ presenceBytes enc o) := by
  cases o with
  | none => rfl
  | some a =>
    rw [pushOption, h a rfl]
    simp [pushU8, presenceBytes]

/-- On a valid configuration no `expect` fires: the sections are written in
full, and only the two length checks can still fail. -/
theorem toBytes_of_valid (h : c.validate = .ok ()) : c.toBytes = (do
      orError (failIf (maxBootConfigFrame < c.encodedLen)
        (invalidFrame "encoded boot configuration exceeds its frame limit"))
      orError (finish c.configBytes maxBootConfigFrame)) := by
  have hs := ((validate_eq_ok c).1 h).1
  have hcount : c.disks.length < 2 ^ 16 := by
    have := hs.count
    unfold maxDisks at this
    omega
  unfold toBytes
  rw [h]
  cases hlen : failIf (maxBootConfigFrame < c.encodedLen)
      (invalidFrame "encoded boot configuration exceeds its frame limit") with
  | error e => rfl
  | ok u =>
    show (pushOption GuestNetworkConfigV1.push _ c.network >>= _) = _
    rw [pushOption_eq _ _ _ fun network hmem => GuestNetworkConfigV1.push_eq (hs.network _ hmem)]
    show (expectU16 c.disks.length _ >>= _) = _
    rw [expectU16, if_pos hcount]
    show (c.disks.foldlM GuestDiskConfigV1.push _ >>= _) = _
    rw [foldlM_push _ _ _ fun disk hmem => GuestDiskConfigV1.push_eq (hs.disks _ hmem)]
    show (pushOption BootstrapConfigV1.push _ c.bootstrap >>= _) = _
    rw [pushOption_eq _ _ _ fun bootstrap hmem =>
      BootstrapConfigV1.push_eq (BootstrapConfigV1.bounded_of_validate (hs.bootstrap _ hmem))]
    rfl

@[simp] theorem length_stringBytes (s : String) : (stringBytes s).length = 2 + (utf8 s).length := by
  simp [stringBytes, Word.bytes]

theorem length_networkBytes (network : Option GuestNetworkConfigV1) :
    (presenceBytes GuestNetworkConfigV1.bytes network).length = networkLen network := by
  cases network with
  | none => rfl
  | some n =>
    have hdns : (n.dns.flatMap Subtype.val).length = n.dns.length * 4 := by
      rw [length_flatMap]
      induction n.dns with
      | nil => rfl
      | cons d dns ih => simp only [map_cons, sum_cons, length_cons, ih, d.2]; omega
    simp only [presenceBytes, GuestNetworkConfigV1.bytes, length_cons, length_append,
      n.guestIp.2, n.gateway.2, hdns, length_nil, networkLen]
    omega

theorem length_diskBytes (disk : GuestDiskConfigV1) :
    disk.bytes.length = 2 + 1 + 2 + (utf8 disk.mountPath).length := by
  simp only [GuestDiskConfigV1.bytes, length_append, length_leBytes, length_stringBytes,
    length_cons, length_nil, Word.bytes]
  omega

/-- The bootstrap section is one byte longer than `encodedLen` counts. -/
theorem length_bootstrapBytes (bootstrap : Option BootstrapConfigV1) :
    (presenceBytes BootstrapConfigV1.bytes bootstrap).length =
      bootstrapLen bootstrap + if bootstrap = none then 0 else 1 := by
  cases bootstrap with
  | none => rfl
  | some b =>
    simp only [presenceBytes, BootstrapConfigV1.bytes, length_cons, length_append,
      length_flatMap, length_stringBytes, length_nil, bootstrapLen,
      BootstrapConfigV1.encodedLen, reduceCtorEq, if_false]
    omega

theorem length_configBytes (c : BootConfigV1) :
    c.configBytes.length = c.encodedLen + if c.bootstrap = none then 0 else 1 := by
  have hdisks : (c.disks.flatMap GuestDiskConfigV1.bytes).length =
      (c.disks.map fun disk => 2 + 1 + 2 + (utf8 disk.mountPath).length).sum := by
    rw [length_flatMap]
    exact congrArg List.sum (map_congr_left fun disk _ => length_diskBytes disk)
  simp only [configBytes, length_append, length_networkBytes, length_bootstrapBytes, hdisks,
    length_leBytes, c.vmId.2, c.capability.2, c.hostNonce.2, length_cons, length_nil,
    encodedLen, Word.bytes]
  omega

theorem toBytes_eq_ok (c : BootConfigV1) (bytes : Bytes) : c.toBytes = .ok bytes ↔
      bytes.length ≤ maxBootConfigFrame ∧ c.validate = .ok () ∧ bytes = c.configBytes := by
  cases hv : c.validate with
  | error e =>
    have herr : c.toBytes = .error (.error e) := by
      unfold toBytes
      rw [hv]
      rfl
    simp [herr]
  | ok u =>
    have hlen := length_configBytes c
    rw [toBytes_of_valid hv]
    by_cases hfits : c.configBytes.length ≤ maxBootConfigFrame
    · have henc : ¬ maxBootConfigFrame < c.encodedLen := by omega
      rw [failIf, if_neg henc, finish, if_neg (by omega)]
      show Except.ok _ = _ ↔ _
      constructor
      · intro h
        cases h
        exact ⟨hfits, rfl, rfl⟩
      · rintro ⟨-, -, rfl⟩
        rfl
    · have hfinish : finish c.configBytes maxBootConfigFrame =
          .error (invalidFrame "encoded frame exceeds its maximum") := if_pos (by omega)
      constructor
      · intro h
        rw [failIf, hfinish] at h
        split at h <;> cases h
      · rintro ⟨hle, -, rfl⟩
        exact absurd hle hfits

theorem toBytes_ne_panic (c : BootConfigV1) (message : String) :
    c.toBytes ≠ .error (.panic message) := by
  intro h
  cases hv : c.validate with
  | error e =>
    unfold toBytes at h
    rw [hv] at h
    cases h
  | ok u =>
    rw [toBytes_of_valid hv, failIf, finish] at h
    split at h
    · cases h
    · split at h <;> cases h

theorem toBytes_error_iff (c : BootConfigV1) : (∃ report, c.toBytes = .error (.error report)) ↔
      c.validate ≠ .ok () ∨ maxBootConfigFrame < c.configBytes.length := by
  have hok := toBytes_eq_ok c c.configBytes
  have hpanic := toBytes_ne_panic c
  cases h : c.toBytes with
  | ok bytes =>
    obtain ⟨hle, hv, rfl⟩ := (toBytes_eq_ok c bytes).1 h
    simp [hv, hle]
  | error f =>
    cases f with
    | panic message => exact absurd h (hpanic message)
    | error r =>
      rw [h] at hok
      refine iff_of_true ⟨r, rfl⟩ ?_
      by_contra hcon
      rw [not_or, not_not, not_lt] at hcon
      have := hok.2 ⟨hcon.2, hcon.1, rfl⟩
      cases this

/-- **The boot configuration codec.**  `toBytes` fails, always with a reported
error, just on an invalid configuration or a frame above the limit; its output
decodes to the configuration and `tryFrom` accepts nothing else.  The length
`encodedLen` announces is the length written precisely when there is no
bootstrap command. -/
theorem bootConfig_codec (c : BootConfigV1) (bytes : Bytes) :
    ((∃ report, c.toBytes = .error (.error report)) ↔
      c.validate ≠ .ok () ∨ maxBootConfigFrame < c.configBytes.length) ∧
    (∀ message, c.toBytes ≠ .error (.panic message)) ∧ (c.toBytes = .ok bytes →
      tryFrom bytes = .ok c ∧ (c.encodedLen = bytes.length ↔ c.bootstrap = none)) ∧
    (tryFrom bytes = .ok c → c.toBytes = .ok bytes) := by
  refine ⟨toBytes_error_iff c, toBytes_ne_panic c, fun h => ?_, fun h => ?_⟩
  · rw [toBytes_eq_ok] at h
    refine ⟨(tryFrom_eq_ok bytes c).2 h, ?_⟩
    rw [h.2.2, length_configBytes]
    by_cases hb : c.bootstrap = none <;> simp [hb]
  · rw [tryFrom_eq_ok] at h
    exact (toBytes_eq_ok c bytes).2 h

def bootstrapOnly : BootConfigV1 where
  version := 1
  vmId := default
  capability := default
  hostNonce := default
  network := none
  disks := []
  bootstrap := some ⟨"/a", [], "/b"⟩

/-- Ninety-six bytes are written where `encodedLen` announces ninety-five. -/
theorem bootstrapOnly_encodedLen :
    ¬ ∀ bytes, bootstrapOnly.toBytes = .ok bytes → bootstrapOnly.encodedLen = bytes.length := by
  have hlen : bootstrapOnly.configBytes.length = bootstrapOnly.encodedLen + 1 :=
    length_configBytes bootstrapOnly
  intro h
  have hbytes : bootstrapOnly.toBytes = .ok bootstrapOnly.configBytes :=
    (toBytes_eq_ok _ _).2 ⟨by rw [hlen]; decide, by decide, rfl⟩
  have := h _ hbytes
  omega

end BootConfigV1

end Jyth.Protocol
