import Kip.Server.Deploy
import Kip.Server.Extract

/-!
# Kip.Server.Rootfs

Where the files of a pod's volumes land in the cell.  `makeDeployPackage`
archives a path `p` as `filepath.Join(".", "ROOTFS", p)` and checks
nothing, so whether a volume's files stay under `ROOTFS` rests on the paths
it is given: the paths of the volume's items, or the keys of the object
when the volume lists no items.  The API states a contract for both: an
item's path holds no `..` element, and a key is a plain name.  The contract
does not exclude an item path that cleans to nothing, such as `.`, whose
entry is a regular file named `ROOTFS` itself; `SafePath` excludes it too.

Under `SafePath` every entry of every `Deploy` that `deployPodVolumes`
makes lies under `ROOTFS`, whatever the resource manager, the agent and the
`range` orders (`deployPodVolumes_under_rootfs`), and the calls made before
are kept while every new one is extracted strictly inside `ROOTFS` from
every directory (`deployPodVolumes_extracts_inside_rootfs`).  The code does
not check the contract itself: an item whose path is `../../etc/passwd` is
deployed as the entry `../etc/passwd`.

When moreover no projected path cleans to a prefix of another's, the
package of a volume, extracted over a tree with no file above or below the
projected paths, holds at `ROOTFS/<cleaned path>` the file of the last item
written at each path and changes no other file (`unpack_volumePayload`).
Two paths that clean alike, such as `x` and `x/`, become two entries of one
name, and which file survives depends on Go's randomised `range` order
(`unpack_depends_on_range_order`).
-/

namespace Kip

/-- A path `makeDeployPackage` archives under `ROOTFS`: it cleans to a
non-empty relative path with no `..` element. -/
def SafePath (p : String) : Prop :=
  Filepath.relClean p ≠ [] ∧ Filepath.dotDot ∉ Filepath.relClean p

instance (p : String) : Decidable (SafePath p) := inferInstanceAs (Decidable (_ ∧ _))

/-- The entry of a path that keeps the contract is extracted strictly inside
`ROOTFS`, from every directory. -/
theorem resolve_tarFilepath_inside {p : String} (hp : SafePath p) (cwd : List (List Char)) :
    ∃ r ≠ [], Filepath.resolve cwd (tarFilepath p) = r ++ "ROOTFS".data :: cwd :=
  ⟨_, by simpa using hp.1, resolve_tarFilepath_eq_rootfsDir hp.2 cwd⟩

/-- The items of the source `deployPodVolumes` projects for a volume: its
ConfigMap's, else its Secret's. -/
def Volume.items (vol : Volume) : List KeyToPath :=
  match vol.configMap, vol.secret with
  | some cmVol, _ => cmVol.items
  | none, some secVol => secVol.items
  | none, none => []

/-- A planned call is the `Deploy` of one of the volumes, with its payload. -/
theorem mem_plannedCalls {env : DeployEnv} {pod : Pod} {c : DeployCall} :
    ∀ {vols : List Volume} {sent : List DeployCall}, c ∈ plannedCalls env pod sent vols →
      ∃ vol ∈ vols, ∃ calls payload, volumePayload env pod calls vol = .ok (some payload) ∧
        c = ⟨pod.name, vol.name, payload⟩
  | [], _, h => nomatch h
  | vol :: vols, sent, h => by
    rcases List.mem_append.mp h with h | h
    · unfold plannedCall at h
      split at h
      next payload hp =>
        exact ⟨vol, List.mem_cons_self _ _, sent, payload, hp, List.mem_singleton.mp h⟩
      next => cases h
    · obtain ⟨v, hv, hrest⟩ := mem_plannedCalls h
      exact ⟨v, List.mem_cons_of_mem _ hv, hrest⟩

/-- A walk keeps the calls made before it and adds `Deploy`s of its
volumes, each with the volume's payload. -/
theorem deployVolumes_eq_append (env : DeployEnv) (pod : Pod) (vols : List Volume)
    (sent : List DeployCall) : ∃ new, (deployVolumes env pod vols sent).1 = sent ++ new ∧
      ∀ c ∈ new, ∃ vol ∈ vols, ∃ calls payload,
        volumePayload env pod calls vol = .ok (some payload) ∧ c = ⟨pod.name, vol.name, payload⟩ := by
  obtain ⟨pre, post, rfl, -, -, hend⟩ := walkOutcome_deployVolumes env pod vols sent
  have hpre : ∀ c ∈ plannedCalls env pod sent pre, ∃ vol ∈ pre ++ post, ∃ calls payload,
      volumePayload env pod calls vol = .ok (some payload) ∧ c = ⟨pod.name, vol.name, payload⟩ :=
    fun c hc => let ⟨vol, hv, hrest⟩ := mem_plannedCalls hc; ⟨vol, List.mem_append_left _ hv, hrest⟩
  rcases hend with ⟨-, hout⟩ | ⟨vol, rest, rfl, ⟨e, -, hout⟩ | ⟨payload, err, hp, -, hout⟩⟩ <;>
    rw [hout]
  · exact ⟨_, rfl, hpre⟩
  · exact ⟨_, rfl, hpre⟩
  · refine ⟨_, List.append_assoc _ _ _, fun c hc => ?_⟩
    rcases List.mem_append.mp hc with hc | hc
    · exact hpre c hc
    · exact ⟨vol, by simp, _, payload, hp, List.mem_singleton.mp hc⟩

/-- An entry of a package is the file of one of the map's paths. -/
theorem entry_of_makeDeployPackage {w : TarWriteHeader} {files : GoMap PackageFile}
    {payload : List TarEntry} (h : makeDeployPackage w files = .ok payload) {e : TarEntry}
    (he : e ∈ payload) : ∃ p ∈ files.keys, e.header.name = tarFilepath p := by
  rw [((writeEntries_eq_ok_iff w _ _).mp h).2] at he
  obtain ⟨⟨p, file⟩, hp, rfl⟩ := List.mem_map.mp he
  exact ⟨p, List.mem_map_of_mem Prod.fst hp, packageHeader_name p file⟩

/-- Each entry a volume deploys is archived at the path of one of its items,
or at a key of the object fetched for it. -/
theorem entry_of_volumePayload {env : DeployEnv} {pod : Pod} {calls : List DeployCall} {vol : Volume}
    {payload : List TarEntry} (h : volumePayload env pod calls vol = .ok (some payload))
    {e : TarEntry} (he : e ∈ payload) :
    ∃ p, e.header.name = tarFilepath p ∧ ((∃ item ∈ vol.items, item.archivePath = p) ∨
      (∃ cmVol cm, vol.configMap = some cmVol ∧ env.rm.getConfigMap cmVol.name pod.ns = .ok cm ∧
        p ∈ cm.data.keys ++ cm.binaryData.keys) ∨
      (∃ secVol sec, vol.secret = some secVol ∧ env.rm.getSecret secVol.secretName pod.ns = .ok sec ∧
        p ∈ sec.data.keys)) := by
  have hrange : ∀ files : GoMap PackageFile, ∀ p ∈ (env.rangeOrder calls files).keys, p ∈ files.keys :=
    fun files p hp => ((env.rangeOrder_perm calls files).map Prod.fst).subset hp
  cases hcm : vol.configMap with
  | some cmVol =>
    obtain ⟨cm, files, hfetch, hfiles, hpkg⟩ := (configMapPayload_eq_ok_iff hcm payload).mp h
    obtain ⟨p, hp, hname⟩ := entry_of_makeDeployPackage hpkg he
    refine ⟨p, hname, ?_⟩
    rcases mem_keys_getConfigMapFiles hfiles (hrange files p hp) with ⟨item, hi, rfl⟩ | hk
    · exact .inl ⟨item, by simpa [Volume.items, hcm] using hi, rfl⟩
    · rcases hfetch with hok | ⟨-, -, rfl⟩
      · exact .inr (.inl ⟨cmVol, cm, rfl, hok, hk⟩)
      · simp [GoMap.keys_empty] at hk
  | none =>
    cases hsec : vol.secret with
    | some secVol =>
      obtain ⟨sec, files, hfetch, hfiles, hpkg⟩ := (secretPayload_eq_ok_iff hcm hsec payload).mp h
      obtain ⟨p, hp, hname⟩ := entry_of_makeDeployPackage hpkg he
      refine ⟨p, hname, ?_⟩
      rcases mem_keys_getSecretFiles hfiles (hrange files p hp) with ⟨item, hi, rfl⟩ | hk
      · exact .inl ⟨item, by simpa [Volume.items, hcm, hsec] using hi, rfl⟩
      · rcases hfetch with hok | ⟨-, -, rfl⟩
        · exact .inr (.inr ⟨secVol, sec, rfl, hok, hk⟩)
        · simp [GoMap.keys_empty] at hk
    | none => simp [volumePayload, hcm, hsec] at h

/-- Under the contract, a run keeps the calls made before it, and every
entry of every new call is the archive path of a path that keeps it. -/
theorem safePath_of_mem_deployPodVolumes {env : DeployEnv} {pod : Pod} (sent : List DeployCall)
    (hitems : ∀ vol ∈ pod.volumes, ∀ item ∈ vol.items, SafePath item.archivePath)
    (hcm : ∀ name cm, env.rm.getConfigMap name pod.ns = .ok cm →
      ∀ k ∈ cm.data.keys ++ cm.binaryData.keys, SafePath k)
    (hsec : ∀ name sec, env.rm.getSecret name pod.ns = .ok sec → ∀ k ∈ sec.data.keys, SafePath k) :
    ∃ new, (deployPodVolumes env pod sent).1 = sent ++ new ∧ ∀ c ∈ new,
      (∃ vol ∈ pod.volumes, ∃ calls, c.volume = vol.name ∧
        volumePayload env pod calls vol = .ok (some c.payload)) ∧
      c.pod = pod.name ∧ ∀ e ∈ c.payload, ∃ p, SafePath p ∧ e.header.name = tarFilepath p := by
  obtain ⟨new, hrun, hnew⟩ := deployVolumes_eq_append env pod pod.volumes sent
  refine ⟨new, hrun, fun c hc => ?_⟩
  obtain ⟨vol, hvol, calls, payload, hp, rfl⟩ := hnew c hc
  refine ⟨⟨vol, hvol, calls, rfl, hp⟩, rfl, fun e he => ?_⟩
  obtain ⟨p, hname, hsrc⟩ := entry_of_volumePayload hp he
  refine ⟨p, ?_, hname⟩
  rcases hsrc with ⟨item, hi, rfl⟩ | ⟨_, cm, -, hok, hk⟩ | ⟨_, sec, -, hok, hk⟩
  exacts [hitems vol hvol item hi, hcm _ cm hok p hk, hsec _ sec hok p hk]

/-- Under the same contract, `deployPodVolumes` keeps the calls made before
it, and every file of every `Deploy` it makes is extracted strictly inside
`ROOTFS`, from every extraction directory: at `ROOTFS` followed by at least
one name. -/
theorem deployPodVolumes_extracts_inside_rootfs (env : DeployEnv) (pod : Pod)
    (sent : List DeployCall)
    (hitems : ∀ vol ∈ pod.volumes, ∀ item ∈ vol.items, SafePath item.archivePath)
    (hcm : ∀ name cm, env.rm.getConfigMap name pod.ns = .ok cm →
      ∀ k ∈ cm.data.keys ++ cm.binaryData.keys, SafePath k)
    (hsec : ∀ name sec, env.rm.getSecret name pod.ns = .ok sec → ∀ k ∈ sec.data.keys, SafePath k) :
    ∃ new, (deployPodVolumes env pod sent).1 = sent ++ new ∧ ∀ c ∈ new,
      c.pod = pod.name ∧ ∀ e ∈ c.payload, ∀ cwd, ∃ r ≠ [],
        Filepath.resolve cwd e.header.name = r ++ "ROOTFS".data :: cwd := by
  obtain ⟨new, hrun, hnew⟩ := safePath_of_mem_deployPodVolumes sent hitems hcm hsec
  refine ⟨new, hrun, fun c hc => ⟨(hnew c hc).2.1, fun e hmem => ?_⟩⟩
  obtain ⟨p, hsafe, hname⟩ := (hnew c hc).2.2 e hmem
  exact hname ▸ resolve_tarFilepath_inside hsafe

/-! ## One ConfigMap volume -/

/-- A ConfigMap with the one key `app.yaml`. -/
def appConfigMap : ConfigMap := ⟨"default", "app", ⟨[("app.yaml", "port: 80")], by decide⟩, GoMap.empty⟩

/-- A resource manager that holds `appConfigMap` under every name, and an
agent that accepts every call. -/
def appEnv : DeployEnv :=
  ⟨⟨fun _ _ => .ok appConfigMap, fun _ _ => .error (.notFound "")⟩, ⟨fun _ _ => none⟩,
    goWriteHeader fun _ => true, fun _ m => m, fun _ _ => .refl _⟩

/-- A volume that projects the key `app.yaml` of the ConfigMap `app` to
`path`. -/
def appVolume (path : String) : Volume :=
  ⟨"config", some ⟨"app", [⟨"app.yaml", path, none⟩], none, none⟩, none⟩

/-- A pod with that one volume. -/
def appPod (path : String) : Pod := ⟨"web", "default", [appVolume path]⟩

/-- `appPod` and the ConfigMap `appEnv` serves keep the volumes' path
contract. -/
theorem appPod_contract :
    (∀ vol ∈ (appPod "conf/app.yaml").volumes, ∀ item ∈ vol.items, SafePath item.archivePath) ∧
    (∀ name cm, appEnv.rm.getConfigMap name (appPod "conf/app.yaml").ns = .ok cm →
      ∀ k ∈ cm.data.keys ++ cm.binaryData.keys, SafePath k) ∧
    (∀ name sec, appEnv.rm.getSecret name (appPod "conf/app.yaml").ns = .ok sec →
      ∀ k ∈ sec.data.keys, SafePath k) :=
  ⟨by decide, by rintro _ _ ⟨⟩; decide, by rintro _ _ ⟨⟩⟩

/-- The key projected to `conf/app.yaml` is extracted inside `ROOTFS`. -/
theorem deployPodVolumes_extracts_inside_rootfs_app :
    (∀ vol ∈ (appPod "conf/app.yaml").volumes, ∀ item ∈ vol.items, SafePath item.archivePath) ∧
    (∀ name cm, appEnv.rm.getConfigMap name (appPod "conf/app.yaml").ns = .ok cm →
      ∀ k ∈ cm.data.keys ++ cm.binaryData.keys, SafePath k) ∧
    (∀ name sec, appEnv.rm.getSecret name (appPod "conf/app.yaml").ns = .ok sec →
      ∀ k ∈ sec.data.keys, SafePath k) ∧
    ∃ new, (deployPodVolumes appEnv (appPod "conf/app.yaml") []).1 = [] ++ new ∧ ∀ c ∈ new,
      c.pod = (appPod "conf/app.yaml").name ∧ ∀ e ∈ c.payload, ∀ cwd, ∃ r ≠ [],
        Filepath.resolve cwd e.header.name = r ++ "ROOTFS".data :: cwd :=
  let ⟨hitems, hcm, hsec⟩ := appPod_contract
  ⟨hitems, hcm, hsec, deployPodVolumes_extracts_inside_rootfs appEnv _ [] hitems hcm hsec⟩

/-- Without the contract, extracted at the root, the entry of the key
`../../etc/passwd` is `/etc/passwd`. -/
example : Filepath.resolve [] (tarFilepath "../../etc/passwd") = ["passwd".data, "etc".data] := by
  decide

/-- Without the contract: the item path `../../etc/passwd` is deployed as
the entry `../etc/passwd`, outside `ROOTFS`. -/
example :
    (deployPodVolumes appEnv (appPod "../../etc/passwd") []).1 =
      [⟨"web", "config", [⟨⟨"../etc/passwd", 0o644, 8, typeReg, 0, 0⟩, toBytes "port: 80"⟩]⟩] ∧
    ¬ UnderRootfs "../etc/passwd" := by
  refine ⟨rfl, ?_⟩
  rintro ⟨r, h | h, -⟩ <;> simpa using congrArg (fun s => s.data.take 2) h

/-! ## What a volume's package leaves

Extracted, the package of a volume leaves at `ROOTFS/<cleaned path>` of
each projected path the file of the last item written at that path,
provided the paths keep no `..`, none cleans to a prefix of another's, and
the tree has no file above or below them.  Go's randomised `range` order
then does not matter: only one entry lands at each location. -/

/-- The projection, packaged in any order and extracted over `tree`: at the
directory of each item's path, the last item written at that path (or
what was there, when the object has none of the keys written there);
elsewhere, nothing changes. -/
theorem unpack_projectItems {lookup : String → Option Bytes} {missing : String → String} {d : Int}
    {o : Bool} {items : List KeyToPath} {files order : GoMap PackageFile} {w : TarWriteHeader}
    {payload : List TarEntry} (hfiles : projectItems lookup missing d o items GoMap.empty = .ok files)
    (hperm : order.entries.Perm files.entries) (hpkg : makeDeployPackage w order = .ok payload)
    (hsafe : ∀ item ∈ items, Filepath.dotDot ∉ Filepath.relClean item.archivePath)
    (hsep : ∀ i ∈ items, ∀ j ∈ items,
      Filepath.relClean i.archivePath <+: Filepath.relClean j.archivePath →
        i.archivePath = j.archivePath)
    (cwd : List (List Char)) (tree : FileTree)
    (hfree : ∀ item ∈ items, tree.Free (rootfsDir cwd item.archivePath)) :
    ∃ t, unpack cwd tree payload = some t ∧
      (∀ item ∈ items, t.get? (rootfsDir cwd item.archivePath) =
        (GoMap.lastWrite (writtenAt lookup d) items item.archivePath).or
          (tree.get? (rootfsDir cwd item.archivePath))) ∧
      ∀ loc, (∀ item ∈ items, rootfsDir cwd item.archivePath ≠ loc) → t.get? loc = tree.get? loc := by
  -- every path the package holds is an item's path
  have hkey : ∀ k ∈ order.keys, ∃ item ∈ items, item.archivePath = k := fun k hk =>
    (mem_keys_projectItems lookup missing d o hfiles ((hperm.map Prod.fst).subset hk)).resolve_left
      (List.not_mem_nil _)
  have hget : ∀ k, order.get? k = GoMap.lastWrite (writtenAt lookup d) items k := fun k => by
    rw [GoMap.get?_eq_of_perm hperm, get?_projectItems_empty lookup missing d o hfiles]
  obtain ⟨t, hu, hat, hrest⟩ := unpack_makeDeployPackage hpkg
    (fun k hk => let ⟨item, hi, hk⟩ := hkey k hk; hk ▸ hsafe item hi)
    (fun p hp q hq hpq => by
      obtain ⟨i, hi, rfl⟩ := hkey p hp
      obtain ⟨j, hj, rfl⟩ := hkey q hq
      exact hsep i hi j hj hpq) cwd tree
    (fun k hk => let ⟨item, hi, hk⟩ := hkey k hk; hk ▸ hfree item hi)
  refine ⟨t, hu, fun item hi => ?_, fun loc hloc => hrest loc fun k hk =>
    let ⟨i, hi, hk⟩ := hkey k hk; hk ▸ hloc i hi⟩
  by_cases hk : item.archivePath ∈ order.keys
  · obtain ⟨file, hfile⟩ := Option.isSome_iff_exists.mp ((GoMap.mem_keys_iff _ _).mp hk)
    rw [hat _ hk, ← hget, hfile]
    rfl
  · rw [← hget, (GoMap.get?_eq_none_iff _ _).mpr hk, Option.none_or]
    refine hrest _ fun k hk' hdir => hk ?_
    obtain ⟨i, hi', rfl⟩ := hkey k hk'
    rwa [← hsep i hi' item hi (rootfsDir_inj hdir ▸ List.prefix_refl _)]

/-- Under the contract, when no projected path cleans to a prefix of
another's, the package a ConfigMap or Secret volume deploys for the object
the resource manager returns, extracted in any directory over any tree with
no file above or below the projected paths, succeeds: it leaves at
`ROOTFS/<cleaned path>` of each projected path the file of the last item
written at that path, and changes no other file, whatever order `range`
takes. -/
theorem unpack_volumePayload (env : DeployEnv) (pod : Pod) (vol : Volume) (calls : List DeployCall)
    (payload : List TarEntry) (cwd : List (List Char)) (tree : FileTree) :
    (∀ cmVol cm, vol.configMap = some cmVol → env.rm.getConfigMap cmVol.name pod.ns = .ok cm →
      volumePayload env pod calls vol = .ok (some payload) →
      (∀ item ∈ projectedItems cmVol.items (cm.data.keys ++ cm.binaryData.keys),
        Filepath.dotDot ∉ Filepath.relClean item.archivePath) →
      (∀ i ∈ projectedItems cmVol.items (cm.data.keys ++ cm.binaryData.keys),
        ∀ j ∈ projectedItems cmVol.items (cm.data.keys ++ cm.binaryData.keys),
        Filepath.relClean i.archivePath <+: Filepath.relClean j.archivePath →
          i.archivePath = j.archivePath) →
      (∀ item ∈ projectedItems cmVol.items (cm.data.keys ++ cm.binaryData.keys),
        tree.Free (rootfsDir cwd item.archivePath)) →
      ∃ t, unpack cwd tree payload = some t ∧
        (∀ item ∈ projectedItems cmVol.items (cm.data.keys ++ cm.binaryData.keys),
          t.get? (rootfsDir cwd item.archivePath) =
            (GoMap.lastWrite
              (writtenAt (configMapLookup cm) (cmVol.defaultMode.getD defaultVolumeFileMode))
              (projectedItems cmVol.items (cm.data.keys ++ cm.binaryData.keys))
              item.archivePath).or (tree.get? (rootfsDir cwd item.archivePath))) ∧
        ∀ loc, (∀ item ∈ projectedItems cmVol.items (cm.data.keys ++ cm.binaryData.keys),
          rootfsDir cwd item.archivePath ≠ loc) → t.get? loc = tree.get? loc) ∧
    (∀ secVol sec, vol.configMap = none → vol.secret = some secVol →
      env.rm.getSecret secVol.secretName pod.ns = .ok sec →
      volumePayload env pod calls vol = .ok (some payload) →
      (∀ item ∈ projectedItems secVol.items sec.data.keys,
        Filepath.dotDot ∉ Filepath.relClean item.archivePath) →
      (∀ i ∈ projectedItems secVol.items sec.data.keys, ∀ j ∈ projectedItems secVol.items sec.data.keys,
        Filepath.relClean i.archivePath <+: Filepath.relClean j.archivePath →
          i.archivePath = j.archivePath) →
      (∀ item ∈ projectedItems secVol.items sec.data.keys, tree.Free (rootfsDir cwd item.archivePath)) →
      ∃ t, unpack cwd tree payload = some t ∧
        (∀ item ∈ projectedItems secVol.items sec.data.keys,
          t.get? (rootfsDir cwd item.archivePath) =
            (GoMap.lastWrite (writtenAt sec.data.get? (secVol.defaultMode.getD defaultVolumeFileMode))
              (projectedItems secVol.items sec.data.keys) item.archivePath).or
              (tree.get? (rootfsDir cwd item.archivePath))) ∧
        ∀ loc, (∀ item ∈ projectedItems secVol.items sec.data.keys, rootfsDir cwd item.archivePath ≠ loc) →
          t.get? loc = tree.get? loc) := by
  constructor
  · intro cmVol cm hvol hcm hp hsafe hsep hfree
    obtain ⟨cm', files, hfetch, hfiles, hpkg⟩ := (configMapPayload_eq_ok_iff hvol payload).mp hp
    obtain rfl : cm' = cm := by
      rcases hfetch with hok | ⟨⟨msg, herr⟩, -⟩
      · exact Except.ok.inj (hok.symm.trans hcm)
      · cases herr.symm.trans hcm
    exact unpack_projectItems hfiles (env.rangeOrder_perm calls files) hpkg hsafe hsep cwd tree hfree
  · intro secVol sec hvol₀ hvol hsec hp hsafe hsep hfree
    obtain ⟨sec', files, hfetch, hfiles, hpkg⟩ := (secretPayload_eq_ok_iff hvol₀ hvol payload).mp hp
    obtain rfl : sec' = sec := by
      rcases hfetch with hok | ⟨⟨msg, herr⟩, -⟩
      · exact Except.ok.inj (hok.symm.trans hsec)
      · cases herr.symm.trans hsec
    exact unpack_projectItems hfiles (env.rangeOrder_perm calls files) hpkg hsafe hsep cwd tree hfree

/-- The ConfigMap volume of `appPod`, extracted at the root over the empty
tree, holds `port: 80` at `ROOTFS/conf/app.yaml`. -/
theorem unpack_volumePayload_app :
    ∃ payload, volumePayload appEnv (appPod "conf/app.yaml") [] (appVolume "conf/app.yaml") =
        .ok (some payload) ∧
      ∃ t, unpack [] FileTree.empty payload = some t ∧
        t.get? (rootfsDir [] "conf/app.yaml") = some ⟨toBytes "port: 80", 0o644⟩ := by
  obtain ⟨t, hu, hat, -⟩ := (unpack_volumePayload appEnv (appPod "conf/app.yaml")
    (appVolume "conf/app.yaml") [] _ [] FileTree.empty).1 _ appConfigMap rfl rfl rfl (by decide)
    (by decide) (by decide)
  exact ⟨_, rfl, t, hu, Eq.trans (hat ⟨"app.yaml", "conf/app.yaml", none⟩ (by decide)) (by decide)⟩

/-- A ConfigMap with the keys `a` and `b`. -/
def pairConfigMap : ConfigMap :=
  ⟨"default", "pair", ⟨[("a", "1"), ("b", "2")], by decide⟩, GoMap.empty⟩

/-- A resource manager that holds `pairConfigMap` under every name, an agent
that accepts every call, and `range` in entry order (`forward`) or the
reverse. -/
def pairEnv (forward : Bool) : DeployEnv :=
  ⟨⟨fun _ _ => .ok pairConfigMap, fun _ _ => .error (.notFound "")⟩, ⟨fun _ _ => none⟩,
    goWriteHeader fun _ => true,
    fun _ m => if forward then m else ⟨m.entries.reverse, by simpa using m.nodup⟩,
    fun _ m => by cases forward; exacts [List.reverse_perm _, List.Perm.refl _]⟩

/-- A pod whose one volume projects the key `a` to `x` and the key `b` to
`x/`. -/
def pairPod : Pod :=
  ⟨"web", "default", [⟨"config", some ⟨"pair", [⟨"a", "x", none⟩, ⟨"b", "x/", none⟩], none, none⟩,
    none⟩]⟩

/-- Item paths that clean alike make the result depend on Go's `range`
order: `x` and `x/` are two paths of the package map, both archived as
`ROOTFS/x`, and the file the agent keeps there is the one `range` visits
last. -/
theorem unpack_depends_on_range_order :
    ∃ p₁ p₂, (deployPodVolumes (pairEnv true) pairPod []).1 = [⟨"web", "config", p₁⟩] ∧
      (deployPodVolumes (pairEnv false) pairPod []).1 = [⟨"web", "config", p₂⟩] ∧
      ((unpack [] FileTree.empty p₁).bind (·.get? (rootfsDir [] "x"))) =
        some ⟨toBytes "2", 0o644⟩ ∧
      ((unpack [] FileTree.empty p₂).bind (·.get? (rootfsDir [] "x"))) =
        some ⟨toBytes "1", 0o644⟩ :=
  ⟨_, _, rfl, rfl, by decide, by decide⟩

end Kip
