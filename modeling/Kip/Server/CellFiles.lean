import Kip.Server.Deploy

/-!
# Kip.Server.CellFiles

The two files `deploy_util.go` sends a cell besides the pod's volumes: the
pod's `resolv.conf`, which `createResolvconf` writes from the pod's DNS
config and `deployResolvconf` deploys, and the network agent's kubeconfig,
which `deployNetworkAgentToken` deploys.  Each is a package of a one-file
map, `Deploy`ed once; a one-entry map has a single `range` order.

`createResolvconf` writes one `nameserver` line per server, then a `search`
line and an `options` line when there are any.  Its error branches are
dead, since writes to a `bytes.Buffer` never fail, and the pod's name
appears only in them.  Split on newlines, the file gives back its lines
(`split_resolvconf`) as long as no server, search or option holds a
newline.

Each function keeps the calls made before it and makes at most one call,
whose payload is its one file (`deployResolvconf_calls`,
`deployNetworkAgentToken_calls`); `Kip.Server.Cell` runs them with the
pod's volumes.
-/

namespace Kip

/-! ## `resolv.conf` -/

/-- `runtimeapi.DNSConfig`. -/
structure DNSConfig where
  servers : List String
  searches : List String
  options : List String
  deriving DecidableEq, Repr

/-- The text `createResolvconf` writes to its buffer. -/
def resolvconf (dnsconf : DNSConfig) : String :=
  String.join (dnsconf.servers.map fun srv => "nameserver " ++ srv ++ "\n") ++
    (if 0 < dnsconf.searches.length then
      "search " ++ Strings.join dnsconf.searches ' ' ++ "\n" else "") ++
    (if 0 < dnsconf.options.length then
      "options " ++ Strings.join dnsconf.options ' ' ++ "\n" else "")

/-- `createResolvconf(podName, dnsconf)`. -/
def createResolvconf (dnsconf : DNSConfig) : Bytes := toBytes (resolvconf dnsconf)

/-- The lines of `resolv.conf`, without their newlines. -/
def resolvconfLines (dnsconf : DNSConfig) : List String :=
  dnsconf.servers.map ("nameserver " ++ ·) ++
    (if 0 < dnsconf.searches.length then ["search " ++ Strings.join dnsconf.searches ' ']
      else []) ++
    (if 0 < dnsconf.options.length then ["options " ++ Strings.join dnsconf.options ' ']
      else [])

/-- The file is its lines, each ended by a newline. -/
theorem resolvconf_eq_join (dnsconf : DNSConfig) :
    resolvconf dnsconf = Strings.join (resolvconfLines dnsconf ++ [""]) '\n' := by
  apply String.ext
  rw [Strings.data_join_append_empty]
  simp only [resolvconf, resolvconfLines, String.data_append, Strings.data_stringJoin,
    List.map_append, List.flatten_append, List.map_map, Function.comp_def]
  split_ifs <;> simp

/-- A `search` or `options` line holds no newline when its entries hold
none. -/
theorem newline_not_mem_of_mem_line {pre e : String} {elems : List String}
    (hpre : '\n' ∉ pre.data)
    (he : e ∈ if 0 < elems.length then [pre ++ Strings.join elems ' '] else [])
    (h : ∀ x ∈ elems, '\n' ∉ x.data) : '\n' ∉ e.data := by
  split_ifs at he <;> simp only [List.mem_singleton, List.not_mem_nil] at he
  subst he
  rw [String.data_append, List.mem_append, not_or]
  refine ⟨hpre, fun hm => ?_⟩
  rcases Strings.mem_join hm with hc | ⟨x, hx, hc⟩
  · exact absurd hc (by decide)
  · exact h x hx hc

/-- Split on newlines, `resolv.conf` gives back its lines, and an empty
piece after the last newline, when no server, search or option holds a
newline. -/
theorem split_resolvconf (dnsconf : DNSConfig)
    (h : ∀ x ∈ dnsconf.servers ++ dnsconf.searches ++ dnsconf.options, '\n' ∉ x.data) :
    Strings.split (resolvconf dnsconf) '\n' = resolvconfLines dnsconf ++ [""] := by
  rw [resolvconf_eq_join]
  refine Strings.split_join (by simp) fun e he => ?_
  simp only [List.mem_append, List.mem_singleton] at h
  simp only [resolvconfLines, List.mem_append, List.mem_map, List.mem_singleton] at he
  rcases he with ((⟨srv, hs, rfl⟩ | he) | he) | rfl
  · rw [String.data_append, List.mem_append, not_or]
    exact ⟨by decide, h srv (by simp [hs])⟩
  · exact newline_not_mem_of_mem_line (by decide) he fun x hx => h x (by simp [hx])
  · exact newline_not_mem_of_mem_line (by decide) he fun x hx => h x (by simp [hx])
  · decide

/-- A cluster DNS config: one server, two searches, one option. -/
theorem split_resolvconf_clusterDNS :
    (∀ x ∈ ["10.96.0.10"] ++ ["default.svc.cluster.local", "cluster.local"] ++ ["ndots:5"],
      '\n' ∉ x.data) ∧
    Strings.split (resolvconf ⟨["10.96.0.10"], ["default.svc.cluster.local", "cluster.local"],
        ["ndots:5"]⟩) '\n' =
      resolvconfLines ⟨["10.96.0.10"], ["default.svc.cluster.local", "cluster.local"],
        ["ndots:5"]⟩ ++ [""] :=
  ⟨by decide, split_resolvconf _ (by decide)⟩

/-! ## Deploying one file -/

/-- The errors of `deployResolvconf` and `deployNetworkAgentToken`: the
context each failure is wrapped in, with the error it wraps. -/
inductive CellFileError where
  /-- `no DNS configurer`. -/
  | noDNSConfigurer
  /-- `converting pod to generate DNS config`. -/
  | convertPod (err : String)
  /-- `creating pod DNS config`. -/
  | podDNS (err : String)
  /-- `creating pod resolv.conf package`. -/
  | resolvconfPackage (err : String)
  /-- `error deploying resolv.conf package to %s` (pod). -/
  | deployResolvconf (pod err : String)
  /-- `error serializing network agent kubeconfig for %s` (pod). -/
  | serializeKubeconfig (pod err : String)
  /-- `error creating kubeconfig package for %s` (pod). -/
  | kubeconfigPackage (pod err : String)
  /-- `error deploying kubeconfig package for %s` (pod). -/
  | deployKubeconfig (pod err : String)
  deriving DecidableEq, Repr

/-- The tail both functions share: package the one-file map
`{path: file}` and `Deploy` it as `volume` of `pod`. -/
def deployFile (writeHeader : TarWriteHeader) (client : ItzoClient) (sent : List DeployCall)
    (pod volume path : String) (file : PackageFile) (packageError deployError : String → CellFileError) :
    List DeployCall × Except CellFileError Unit :=
  match makeDeployPackage writeHeader (GoMap.empty.set path file) with
  | .error err => (sent, .error (packageError err))
  | .ok payload =>
    match client.deploy sent ⟨pod, volume, payload⟩ with
    | some err => (sent ++ [⟨pod, volume, payload⟩], .error (deployError err))
    | none => (sent ++ [⟨pod, volume, payload⟩], .ok ())

/-- `deployResolvconf(pod, node, dnsConfigurer, nodeClientFactory)`:
`dnsConfigurer` is `none` for a nil configurer, and otherwise its
`GetPodDNS`; `milpaToK8sPod` is `milpaToK8sPod("", "", ·)`. -/
def deployResolvconf {κ : Type} (dnsConfigurer : Option (κ → Except String DNSConfig))
    (milpaToK8sPod : Pod → Except String κ) (writeHeader : TarWriteHeader)
    (client : ItzoClient) (resolvconfVolumeName : String) (pod : Pod)
    (sent : List DeployCall) : List DeployCall × Except CellFileError Unit :=
  match dnsConfigurer with
  | none => (sent, .error .noDNSConfigurer)
  | some getPodDNS =>
    match milpaToK8sPod pod with
    | .error err => (sent, .error (.convertPod err))
    | .ok k8spod =>
      match getPodDNS k8spod with
      | .error err => (sent, .error (.podDNS err))
      | .ok dnsconf =>
        deployFile writeHeader client sent pod.name resolvconfVolumeName "/etc/resolv.conf"
          ⟨createResolvconf dnsconf, 0o644⟩ .resolvconfPackage (.deployResolvconf pod.name)

/-- `deployNetworkAgentToken(cfg, pod, node, nodeClientFactory)`, with
`write` for `clientcmd.Write`. -/
def deployNetworkAgentToken {κ : Type} (write : κ → Except String Bytes)
    (writeHeader : TarWriteHeader) (client : ItzoClient) (cfg : Option κ) (pod : Pod)
    (sent : List DeployCall) : List DeployCall × Except CellFileError Unit :=
  match cfg with
  | none => (sent, .ok ())
  | some cfg =>
    match write cfg with
    | .error err => (sent, .error (.serializeKubeconfig pod.name err))
    | .ok data =>
      deployFile writeHeader client sent pod.name "kubeconfig" "kubeconfig/kubeconfig"
        ⟨data, 0o600⟩ (.kubeconfigPackage pod.name) (.deployKubeconfig pod.name)

/-- The entry a one-file package holds: the file under its archive path,
owned by root, as a regular file. -/
def fileEntry (path : String) (file : PackageFile) : TarEntry :=
  ⟨⟨tarFilepath path, file.mode, file.data.length, typeReg, 0, 0⟩, file.data⟩

/-- `deployFile` keeps the calls made before it and makes at most one call,
whose payload is the file's entry. -/
theorem deployFile_calls (w : TarWriteHeader) (client : ItzoClient) (sent : List DeployCall)
    (pod volume path : String) (file : PackageFile) (pe de : String → CellFileError) :
    (deployFile w client sent pod volume path file pe de).1 = sent ∨
      (deployFile w client sent pod volume path file pe de).1 =
        sent ++ [⟨pod, volume, [fileEntry path file]⟩] := by
  unfold deployFile
  cases hpkg : makeDeployPackage w (GoMap.empty.set path file) with
  | error err => exact .inl rfl
  | ok payload =>
    have hpay : payload = [fileEntry path file] := ((writeEntries_eq_ok_iff w _ _).mp hpkg).2
    subst hpay
    dsimp only
    cases client.deploy sent ⟨pod, volume, [fileEntry path file]⟩ <;> exact .inr rfl

/-- `deployResolvconf` makes no call, or makes one after the pod's DNS
config is built: the pod's `resolv.conf` volume, whose payload is the one
file `ROOTFS/etc/resolv.conf`, mode `0644`, holding the text
`createResolvconf` writes. -/
theorem deployResolvconf_calls {κ : Type} (dnsConfigurer : Option (κ → Except String DNSConfig))
    (milpaToK8sPod : Pod → Except String κ) (w : TarWriteHeader) (client : ItzoClient)
    (resolvconfVolumeName : String) (pod : Pod) (sent : List DeployCall) :
    (deployResolvconf dnsConfigurer milpaToK8sPod w client resolvconfVolumeName pod sent).1 = sent ∨
      ∃ getPodDNS k8spod dnsconf, dnsConfigurer = some getPodDNS ∧
        milpaToK8sPod pod = .ok k8spod ∧ getPodDNS k8spod = .ok dnsconf ∧
        (deployResolvconf dnsConfigurer milpaToK8sPod w client resolvconfVolumeName pod sent).1 =
          sent ++ [⟨pod.name, resolvconfVolumeName,
            [fileEntry "/etc/resolv.conf" ⟨createResolvconf dnsconf, 0o644⟩]⟩] := by
  cases hc : dnsConfigurer with
  | none => exact .inl rfl
  | some getPodDNS =>
    cases hk : milpaToK8sPod pod with
    | error err => exact .inl (by simp [deployResolvconf, hk])
    | ok k8spod =>
      cases hd : getPodDNS k8spod with
      | error err => exact .inl (by simp [deployResolvconf, hk, hd])
      | ok dnsconf =>
        simp only [deployResolvconf, hk, hd]
        exact (deployFile_calls _ _ _ _ _ _ _ _ _).imp_right
          fun h => ⟨getPodDNS, k8spod, dnsconf, rfl, rfl, hd, h⟩

/-- `deployNetworkAgentToken` makes no call, or makes one when there is a
kubeconfig and it serializes: the `kubeconfig` volume, whose payload is the
one file `ROOTFS/kubeconfig/kubeconfig`, mode `0600`, holding the
serialized kubeconfig. -/
theorem deployNetworkAgentToken_calls {κ : Type} (write : κ → Except String Bytes)
    (w : TarWriteHeader) (client : ItzoClient) (cfg : Option κ) (pod : Pod)
    (sent : List DeployCall) :
    (deployNetworkAgentToken write w client cfg pod sent).1 = sent ∨
      ∃ c data, cfg = some c ∧ write c = .ok data ∧
        (deployNetworkAgentToken write w client cfg pod sent).1 =
          sent ++ [⟨pod.name, "kubeconfig", [fileEntry "kubeconfig/kubeconfig" ⟨data, 0o600⟩]⟩] := by
  cases hcfg : cfg with
  | none => exact .inl rfl
  | some c =>
    cases hw : write c with
    | error err => exact .inl (by simp [deployNetworkAgentToken, hw])
    | ok data =>
      simp only [deployNetworkAgentToken, hw]
      exact (deployFile_calls _ _ _ _ _ _ _ _ _).imp_right fun h => ⟨c, data, rfl, hw, h⟩

end Kip
