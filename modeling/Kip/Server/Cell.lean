import Kip.Server.Rootfs
import Kip.Server.CellFiles

/-!
# Kip.Server.Cell

The deployments the server makes to a pod's cell: the pod's volumes
(`deployPodVolumes`), its `resolv.conf` (`deployResolvconf`) and the network
agent's kubeconfig (`deployNetworkAgentToken`).  Which of them the server
runs, in which order and how often, is decided outside `deploy_util.go`;
`runDeployments` runs any sequence of them, each from the calls the agent
has received so far, whatever each one returns.

Over every such run the agent's calls only grow, and each new call is for
the pod and of one of three kinds (`CellCall`): a volume of the pod with the
payload that volume's ConfigMap or Secret gives, the `resolv.conf` volume
with the one file `ROOTFS/etc/resolv.conf` that `createResolvconf` writes
from the pod's DNS config, or the `kubeconfig` volume with the one file
`ROOTFS/kubeconfig/kubeconfig` holding the serialized kubeconfig.  Under
the volumes' path contract, every file of every new call is extracted
strictly inside `ROOTFS`, from every directory (`runDeployments_calls`).
Each deployment keeps this invariant (`Deployment.run_calls`); the run keeps
it by induction.
-/

namespace Kip

/-- The world of a cell's deployment: the volumes' world, the DNS
configurer and pod conversion `deployResolvconf` uses with the volume name
it deploys under, and the network agent's kubeconfig (if any) with
`clientcmd.Write`. -/
structure CellEnv (κ κ' : Type) extends DeployEnv where
  dnsConfigurer : Option (κ → Except String DNSConfig)
  milpaToK8sPod : Pod → Except String κ
  resolvconfVolumeName : String
  kubeconfig : Option κ'
  write : κ' → Except String Bytes

/-- The deployments the server makes to a pod's cell. -/
inductive Deployment where
  | podVolumes
  | resolvconf
  | networkAgentToken
  deriving DecidableEq, Repr

variable {κ κ' : Type}

/-- The calls the agent has received after one deployment, having received
`sent` before it. -/
def Deployment.run (env : CellEnv κ κ') (pod : Pod) (sent : List DeployCall) :
    Deployment → List DeployCall
  | .podVolumes => (deployPodVolumes env.toDeployEnv pod sent).1
  | .resolvconf => (deployResolvconf env.dnsConfigurer env.milpaToK8sPod env.writeHeader
      env.client env.resolvconfVolumeName pod sent).1
  | .networkAgentToken => (deployNetworkAgentToken env.write env.writeHeader env.client
      env.kubeconfig pod sent).1

/-- The calls the agent has received after the deployments `ds`, in order. -/
def runDeployments (env : CellEnv κ κ') (pod : Pod) (ds : List Deployment)
    (sent : List DeployCall) : List DeployCall :=
  ds.foldl (fun sent d => d.run env pod sent) sent

/-- A call the server makes to deploy `pod`'s cell: for the pod, and one of
its volumes with that volume's payload, the `resolv.conf` file written from
the pod's DNS config, or the serialized kubeconfig. -/
def CellCall (env : CellEnv κ κ') (pod : Pod) (c : DeployCall) : Prop :=
  c.pod = pod.name ∧
    ((∃ vol ∈ pod.volumes, ∃ calls, c.volume = vol.name ∧
        volumePayload env.toDeployEnv pod calls vol = .ok (some c.payload)) ∨
      (∃ getPodDNS k8spod dnsconf, env.dnsConfigurer = some getPodDNS ∧
        env.milpaToK8sPod pod = .ok k8spod ∧ getPodDNS k8spod = .ok dnsconf ∧
        c.volume = env.resolvconfVolumeName ∧
        c.payload = [fileEntry "/etc/resolv.conf" ⟨createResolvconf dnsconf, 0o644⟩]) ∨
      (∃ cfg data, env.kubeconfig = some cfg ∧ env.write cfg = .ok data ∧
        c.volume = "kubeconfig" ∧
        c.payload = [fileEntry "kubeconfig/kubeconfig" ⟨data, 0o600⟩]))

/-- A call of the cell whose every file is extracted strictly inside
`ROOTFS`, from every directory. -/
def SafeCellCall (env : CellEnv κ κ') (pod : Pod) (c : DeployCall) : Prop :=
  CellCall env pod c ∧ ∀ e ∈ c.payload, ∀ cwd, ∃ r ≠ [],
    Filepath.resolve cwd e.header.name = r ++ "ROOTFS".data :: cwd

section contract

variable {env : CellEnv κ κ'} {pod : Pod}
  (hitems : ∀ vol ∈ pod.volumes, ∀ item ∈ vol.items, SafePath item.archivePath)
  (hcm : ∀ name cm, env.rm.getConfigMap name pod.ns = .ok cm →
    ∀ k ∈ cm.data.keys ++ cm.binaryData.keys, SafePath k)
  (hsec : ∀ name sec, env.rm.getSecret name pod.ns = .ok sec → ∀ k ∈ sec.data.keys, SafePath k)
include hitems hcm hsec

/-- Each deployment keeps the calls made before it and adds only safe calls
of the cell. -/
theorem Deployment.run_calls (d : Deployment) (sent : List DeployCall) :
    ∃ new, d.run env pod sent = sent ++ new ∧ ∀ c ∈ new, SafeCellCall env pod c := by
  cases d with
  | podVolumes =>
    obtain ⟨new, hrun, hnew⟩ := safePath_of_mem_deployPodVolumes sent hitems hcm hsec
    refine ⟨new, hrun, fun c hc => ⟨⟨(hnew c hc).2.1, .inl (hnew c hc).1⟩, fun e he => ?_⟩⟩
    obtain ⟨p, hsafe, hname⟩ := (hnew c hc).2.2 e he
    exact hname ▸ resolve_tarFilepath_inside hsafe
  | resolvconf =>
    rcases deployResolvconf_calls env.dnsConfigurer env.milpaToK8sPod env.writeHeader env.client
      env.resolvconfVolumeName pod sent with h | ⟨getPodDNS, k8spod, dnsconf, hc, hk, hd, h⟩
    · exact ⟨[], h.trans (List.append_nil _).symm, nofun⟩
    · refine ⟨_, h, fun c hmem => ?_⟩
      obtain rfl := List.mem_singleton.mp hmem
      refine ⟨⟨rfl, .inr (.inl ⟨getPodDNS, k8spod, dnsconf, hc, hk, hd, rfl, rfl⟩)⟩, ?_⟩
      simpa [fileEntry] using @resolve_tarFilepath_inside "/etc/resolv.conf" (by decide)
  | networkAgentToken =>
    rcases deployNetworkAgentToken_calls env.write env.writeHeader env.client env.kubeconfig pod
      sent with h | ⟨cfg, data, hcfg, hw, h⟩
    · exact ⟨[], h.trans (List.append_nil _).symm, nofun⟩
    · refine ⟨_, h, fun c hmem => ?_⟩
      obtain rfl := List.mem_singleton.mp hmem
      refine ⟨⟨rfl, .inr (.inr ⟨cfg, data, hcfg, hw, rfl, rfl⟩)⟩, ?_⟩
      simpa [fileEntry] using @resolve_tarFilepath_inside "kubeconfig/kubeconfig" (by decide)

/-- Under the volumes' path contract, every run of deployments to a pod's
cell keeps the calls made before it, and each call it adds is for the pod:
one of its volumes with that volume's payload, the `resolv.conf` volume
with the one file `ROOTFS/etc/resolv.conf` written from the pod's DNS
config, or the `kubeconfig` volume with the one file
`ROOTFS/kubeconfig/kubeconfig`; and every file of every added call is
extracted strictly inside `ROOTFS`, from every directory. -/
theorem runDeployments_calls (ds : List Deployment) (sent : List DeployCall) :
    ∃ new, runDeployments env pod ds sent = sent ++ new ∧ ∀ c ∈ new, SafeCellCall env pod c := by
  induction ds generalizing sent with
  | nil => exact ⟨[], (List.append_nil _).symm, nofun⟩
  | cons d ds ih =>
    obtain ⟨new₁, h₁, hnew₁⟩ := d.run_calls hitems hcm hsec sent
    obtain ⟨new₂, h₂, hnew₂⟩ := ih (d.run env pod sent)
    refine ⟨new₁ ++ new₂, by rw [runDeployments, List.foldl_cons, ← runDeployments, h₂, h₁,
      List.append_assoc], fun c hc => ?_⟩
    rcases List.mem_append.mp hc with hc | hc
    exacts [hnew₁ c hc, hnew₂ c hc]

end contract

/-- A cell for `appPod`, with a DNS config and a kubeconfig. -/
def appCell : CellEnv Unit Unit :=
  ⟨appEnv, some fun _ => .ok ⟨["10.96.0.10"], ["cluster.local"], []⟩, fun _ => .ok (),
    "resolv-conf", some (), fun _ => .ok [1, 2, 3]⟩

/-- The three deployments of `appPod` to `appCell` keep the contract. -/
theorem runDeployments_calls_app :
    (∀ vol ∈ (appPod "conf/app.yaml").volumes, ∀ item ∈ vol.items, SafePath item.archivePath) ∧
    (∀ name cm, appCell.rm.getConfigMap name (appPod "conf/app.yaml").ns = .ok cm →
      ∀ k ∈ cm.data.keys ++ cm.binaryData.keys, SafePath k) ∧
    (∀ name sec, appCell.rm.getSecret name (appPod "conf/app.yaml").ns = .ok sec →
      ∀ k ∈ sec.data.keys, SafePath k) ∧
    ∃ new, runDeployments appCell (appPod "conf/app.yaml")
        [.podVolumes, .resolvconf, .networkAgentToken] [] = [] ++ new ∧
      ∀ c ∈ new, SafeCellCall appCell (appPod "conf/app.yaml") c :=
  let ⟨hitems, hcm, hsec⟩ := appPod_contract
  ⟨hitems, hcm, hsec, runDeployments_calls hitems hcm hsec _ []⟩

end Kip
