import Kip.Server.Files

/-!
# Kip.Server.Deploy

`deployPodVolumes` (`pkg/server/deploy_util.go`): for each volume of the
pod, in order, fetch the ConfigMap (else the Secret) it references from the
resource manager, project its files, package them and `Deploy` the package
to the cell agent under the volume's name.  The first failure returns an
error and ends the walk; an optional volume whose object is not found is
deployed from an empty object.

The environment is explicit: the resource manager's answers (any object,
a NotFound error or another error, for every name), the cell agent's answer
to each `Deploy` given the calls it has received before, the tar writer's
header check and the order in which `range` visits each package map, which
may differ from one package to the next.  A run
returns the calls the agent received and the result, and
`deployPodVolumes_spec` states it for every environment: the calls are
those of a prefix of the volumes, in order, one per ConfigMap or Secret
volume; the walk stops at the first volume that fails, and succeeds exactly
when it reaches the end.
-/

namespace Kip

/-- The error of a fetch, as `errors.IsNotFound` classifies it. -/
inductive FetchError where
  | notFound (msg : String)
  | other (msg : String)
  deriving DecidableEq, Repr

/-- `errors.IsNotFound(err)`. -/
def FetchError.isNotFound : FetchError → Bool
  | .notFound _ => true
  | .other _ => false

/-- The reads of `manager.ResourceManager`, by name and namespace. -/
structure ResourceManager where
  getConfigMap : String → String → Except FetchError ConfigMap
  getSecret : String → String → Except FetchError Secret

/-- One call `client.Deploy(podName, volumeName, payload)`. -/
structure DeployCall where
  pod : String
  volume : String
  payload : List TarEntry
  deriving DecidableEq, Repr

/-- The cell agent as `deployPodVolumes` sees it: the answer to a `Deploy`
given the calls received before it, `none` on success. -/
structure ItzoClient where
  deploy : List DeployCall → DeployCall → Option String

/-- The world `deployPodVolumes` runs in.  `rangeOrder sent m` is the order
the runtime picks when `makeDeployPackage` ranges over the package map `m`,
the agent having received `sent`: Go randomises each `range`, so the order
may differ from one package to the next, even for equal maps. -/
structure DeployEnv where
  rm : ResourceManager
  client : ItzoClient
  writeHeader : TarWriteHeader
  rangeOrder : List DeployCall → GoMap PackageFile → GoMap PackageFile
  rangeOrder_perm : ∀ sent m, (rangeOrder sent m).entries.Perm m.entries

/-- The fields of `api.Volume` that `deployPodVolumes` reads. -/
structure Volume where
  name : String
  configMap : Option ConfigMapVolumeSource
  secret : Option SecretVolumeSource

/-- The fields of `api.Pod` that `deployPodVolumes` reads. -/
structure Pod where
  name : String
  ns : String
  volumes : List Volume

/-- The errors of `deployPodVolumes`, each the `util.WrapError` context of
the source with the error it wraps. -/
inductive DeployError where
  /-- `Couldn't get configMap %v/%v` (namespace, name). -/
  | getConfigMap (ns name : String) (err : FetchError)
  /-- `couldn't get configMap payload %v/%v`. -/
  | configMapPayload (ns name : String) (err : String)
  /-- `Couldn't get secret %v/%v`. -/
  | getSecret (ns name : String) (err : FetchError)
  /-- `couldn't get secret payload %v/%v`. -/
  | secretPayload (ns name : String) (err : String)
  /-- `error creating tar.gz package %s for %s` (volume, pod). -/
  | createPackage (volume pod : String) (err : String)
  /-- `error deploying package %s to %s` (volume, pod). -/
  | deployPackage (volume pod : String) (err : String)
  deriving DecidableEq, Repr

/-- The fetched object, or `empty` when the fetch failed with NotFound and
the volume is optional. -/
def fetchOrEmpty {α : Type} (fetched : Except FetchError α) (optional : Bool) (empty : α) :
    Except FetchError α :=
  match fetched with
  | .ok obj => .ok obj
  | .error err => if err.isNotFound && optional then .ok empty else .error err

/-- The steps a ConfigMap or Secret volume takes before `Deploy`, the agent
having received `sent`: fetch (or substitute), project, package. -/
def volumePackage {α : Type} (env : DeployEnv) (pod : Pod) (sent : List DeployCall) (vol : Volume)
    (fetched : Except FetchError α) (optional : Bool) (empty : α)
    (files : α → Except String (GoMap PackageFile))
    (fetchError : FetchError → DeployError) (payloadError : String → DeployError) :
    Except DeployError (List TarEntry) := do
  let obj ← (fetchOrEmpty fetched optional empty).mapError fetchError
  let packageFiles ← (files obj).mapError payloadError
  (makeDeployPackage env.writeHeader (env.rangeOrder sent packageFiles)).mapError
    (.createPackage vol.name pod.name)

/-- The ConfigMap branch of the loop, up to `Deploy`. -/
def configMapPackage (env : DeployEnv) (pod : Pod) (sent : List DeployCall) (vol : Volume)
    (cmVol : ConfigMapVolumeSource) : Except DeployError (List TarEntry) :=
  volumePackage env pod sent vol (env.rm.getConfigMap cmVol.name pod.ns) (cmVol.optional = some true)
    ⟨pod.ns, cmVol.name, GoMap.empty, GoMap.empty⟩ (getConfigMapFiles cmVol)
    (.getConfigMap pod.ns cmVol.name) (.configMapPayload pod.ns cmVol.name)

/-- The Secret branch of the loop, up to `Deploy`. -/
def secretPackage (env : DeployEnv) (pod : Pod) (sent : List DeployCall) (vol : Volume)
    (secVol : SecretVolumeSource) : Except DeployError (List TarEntry) :=
  volumePackage env pod sent vol (env.rm.getSecret secVol.secretName pod.ns)
    (secVol.optional = some true) ⟨pod.ns, secVol.secretName, GoMap.empty⟩
    (getSecretFiles secVol) (.getSecret pod.ns secVol.secretName)
    (.secretPayload pod.ns secVol.secretName)

/-- The payload a volume deploys, the agent having received `sent`: its
ConfigMap's, else its Secret's; `none` for a volume of another kind. -/
def volumePayload (env : DeployEnv) (pod : Pod) (sent : List DeployCall) (vol : Volume) :
    Except DeployError (Option (List TarEntry)) :=
  match vol.configMap, vol.secret with
  | some cmVol, _ => (configMapPackage env pod sent vol cmVol).map some
  | none, some secVol => (secretPackage env pod sent vol secVol).map some
  | none, none => .ok none

/-- The loop of `deployPodVolumes` over `vols`, the agent having received
`sent`: the calls it has received at the end, and the result. -/
def deployVolumes (env : DeployEnv) (pod : Pod) :
    List Volume → List DeployCall → List DeployCall × Except DeployError Unit
  | [], sent => (sent, .ok ())
  | vol :: vols, sent =>
    match volumePayload env pod sent vol with
    | .error e => (sent, .error e)
    | .ok none => deployVolumes env pod vols sent
    | .ok (some payload) =>
      match env.client.deploy sent ⟨pod.name, vol.name, payload⟩ with
      | some err =>
        (sent ++ [⟨pod.name, vol.name, payload⟩], .error (.deployPackage vol.name pod.name err))
      | none => deployVolumes env pod vols (sent ++ [⟨pod.name, vol.name, payload⟩])

/-- `deployPodVolumes(pod, node, rm, nodeClientFactory)`. -/
def deployPodVolumes (env : DeployEnv) (pod : Pod) (sent : List DeployCall) :
    List DeployCall × Except DeployError Unit :=
  deployVolumes env pod pod.volumes sent

/-! ## The walk -/

/-- The `Deploy` call a volume leads to, when its payload is built after the
calls `sent`. -/
def plannedCall (env : DeployEnv) (pod : Pod) (sent : List DeployCall) (vol : Volume) :
    Option DeployCall :=
  match volumePayload env pod sent vol with
  | .ok (some payload) => some ⟨pod.name, vol.name, payload⟩
  | _ => none

/-- The `Deploy` calls for the volumes of `vols` whose payload is built, in
order, each volume's after the calls before it. -/
def plannedCalls (env : DeployEnv) (pod : Pod) : List DeployCall → List Volume → List DeployCall
  | _, [] => []
  | sent, vol :: vols =>
    (plannedCall env pod sent vol).toList ++
      plannedCalls env pod (sent ++ (plannedCall env pod sent vol).toList) vols

/-- Every volume of `vols` is prepared, each after the calls planned before
it. -/
def Prepared (env : DeployEnv) (pod : Pod) : List DeployCall → List Volume → Prop
  | _, [] => True
  | sent, vol :: vols => (∃ p, volumePayload env pod sent vol = .ok p) ∧
      Prepared env pod (sent ++ (plannedCall env pod sent vol).toList) vols

/-- The agent accepts each call in turn, having received `sent` before. -/
def AcceptsAll (client : ItzoClient) : List DeployCall → List DeployCall → Prop
  | _, [] => True
  | sent, c :: cs => client.deploy sent c = none ∧ AcceptsAll client (sent ++ [c]) cs

theorem acceptsAll_append (client : ItzoClient) (xs ys : List DeployCall) :
    ∀ sent, AcceptsAll client sent (xs ++ ys) ↔
      AcceptsAll client sent xs ∧ AcceptsAll client (sent ++ xs) ys := by
  induction xs with
  | nil => simp [AcceptsAll]
  | cons c cs ih => intro sent; simp [AcceptsAll, ih, and_assoc]

theorem plannedCalls_append (env : DeployEnv) (pod : Pod) (xs ys : List Volume) :
    ∀ sent, plannedCalls env pod sent (xs ++ ys) =
      plannedCalls env pod sent xs ++ plannedCalls env pod (sent ++ plannedCalls env pod sent xs) ys := by
  induction xs with
  | nil => simp [plannedCalls]
  | cons vol vols ih => intro sent; simp [plannedCalls, ih]

theorem prepared_append (env : DeployEnv) (pod : Pod) (xs ys : List Volume) :
    ∀ sent, Prepared env pod sent (xs ++ ys) ↔
      Prepared env pod sent xs ∧ Prepared env pod (sent ++ plannedCalls env pod sent xs) ys := by
  induction xs with
  | nil => simp [Prepared, plannedCalls]
  | cons vol vols ih => intro sent; simp [Prepared, plannedCalls, ih, and_assoc]

/-- How a walk over `vols` from `sent` ends: some prefix `pre` of the
volumes is prepared and all its calls accepted, and then either the walk
is over and succeeds, or the next volume's preparation fails, or its
`Deploy` is refused; in either failure nothing after it is called. -/
def WalkOutcome (env : DeployEnv) (pod : Pod) (vols : List Volume) (sent : List DeployCall)
    (out : List DeployCall × Except DeployError Unit) : Prop :=
  ∃ pre post, vols = pre ++ post ∧ Prepared env pod sent pre ∧
    AcceptsAll env.client sent (plannedCalls env pod sent pre) ∧
    ((post = [] ∧ out = (sent ++ plannedCalls env pod sent pre, .ok ())) ∨
     ∃ vol rest, post = vol :: rest ∧
      ((∃ e, volumePayload env pod (sent ++ plannedCalls env pod sent pre) vol = .error e ∧
          out = (sent ++ plannedCalls env pod sent pre, .error e)) ∨
       (∃ payload err,
          volumePayload env pod (sent ++ plannedCalls env pod sent pre) vol = .ok (some payload) ∧
          env.client.deploy (sent ++ plannedCalls env pod sent pre) ⟨pod.name, vol.name, payload⟩ =
            some err ∧
          out = (sent ++ plannedCalls env pod sent pre ++ [⟨pod.name, vol.name, payload⟩],
            .error (.deployPackage vol.name pod.name err)))))

/-- A volume that was prepared and, if it reached `Deploy`, accepted, joins
the prefix of the walk that follows it. -/
theorem walkOutcome_cons {env : DeployEnv} {pod : Pod} {vol : Volume} {vols : List Volume}
    {sent : List DeployCall} {p : Option (List TarEntry)}
    {out : List DeployCall × Except DeployError Unit}
    (hp : volumePayload env pod sent vol = .ok p)
    (hacc : AcceptsAll env.client sent (plannedCall env pod sent vol).toList)
    (h : WalkOutcome env pod vols (sent ++ (plannedCall env pod sent vol).toList) out) :
    WalkOutcome env pod (vol :: vols) sent out := by
  obtain ⟨pre, post, rfl, hpre, hacc', hend⟩ := h
  refine ⟨vol :: pre, post, rfl, ⟨⟨p, hp⟩, hpre⟩, ?_, ?_⟩
  · rw [plannedCalls, acceptsAll_append]
    exact ⟨hacc, hacc'⟩
  · simpa only [plannedCalls, List.append_assoc] using hend

/-- Every walk ends as `WalkOutcome` says. -/
theorem walkOutcome_deployVolumes (env : DeployEnv) (pod : Pod) :
    ∀ (vols : List Volume) (sent : List DeployCall),
      WalkOutcome env pod vols sent (deployVolumes env pod vols sent)
  | [], sent =>
    ⟨[], [], rfl, trivial, trivial, .inl ⟨rfl, by simp [deployVolumes, plannedCalls]⟩⟩
  | vol :: vols, sent => by
    cases hp : volumePayload env pod sent vol with
    | error e =>
      refine ⟨[], vol :: vols, rfl, trivial, trivial, .inr ⟨vol, vols, rfl, .inl ⟨e, ?_, ?_⟩⟩⟩
      · simpa [plannedCalls] using hp
      · simp [deployVolumes, hp, plannedCalls]
    | ok p =>
      cases p with
      | none =>
        have hc : plannedCall env pod sent vol = none := by simp [plannedCall, hp]
        rw [deployVolumes, hp]
        exact walkOutcome_cons hp (by simp [hc, AcceptsAll])
          (by simpa [hc] using walkOutcome_deployVolumes env pod vols sent)
      | some payload =>
        have hc : plannedCall env pod sent vol = some ⟨pod.name, vol.name, payload⟩ := by
          simp [plannedCall, hp]
        cases hd : env.client.deploy sent ⟨pod.name, vol.name, payload⟩ with
        | some err =>
          refine ⟨[], vol :: vols, rfl, trivial, trivial,
            .inr ⟨vol, vols, rfl, .inr ⟨payload, err, by simpa [plannedCalls] using hp,
              by simpa [plannedCalls] using hd, ?_⟩⟩⟩
          simp [deployVolumes, hp, hd, plannedCalls]
        | none =>
          rw [deployVolumes, hp]
          simp only [hd]
          exact walkOutcome_cons hp (by simp [hc, AcceptsAll, hd])
            (by simpa [hc] using walkOutcome_deployVolumes env pod vols _)

/-! ## One volume -/

/-- The fetch substitutes the empty object exactly when it fails with
NotFound and the volume is optional. -/
theorem fetchOrEmpty_eq_ok_iff {α : Type} (fetched : Except FetchError α) (optional : Bool)
    (empty obj : α) :
    fetchOrEmpty fetched optional empty = .ok obj ↔
      fetched = .ok obj ∨
        ((∃ msg, fetched = .error (.notFound msg)) ∧ optional = true ∧ obj = empty) := by
  cases fetched with
  | ok o => simp [fetchOrEmpty]
  | error e => cases e <;> cases optional <;> simp [fetchOrEmpty, FetchError.isNotFound, eq_comm]

/-- A volume leads to no call exactly when it has neither a ConfigMap nor a
Secret. -/
theorem volumePayload_eq_ok_none_iff (env : DeployEnv) (pod : Pod) (sent : List DeployCall)
    (vol : Volume) :
    volumePayload env pod sent vol = .ok none ↔ vol.configMap = none ∧ vol.secret = none := by
  cases h₁ : vol.configMap with
  | some cmVol =>
    cases hc : configMapPackage env pod sent vol cmVol <;>
      simp [volumePayload, h₁, hc, Except.map]
  | none =>
    cases h₂ : vol.secret with
    | some secVol =>
      cases hc : secretPackage env pod sent vol secVol <;>
        simp [volumePayload, h₁, h₂, hc, Except.map]
    | none => simp [volumePayload, h₁, h₂]

/-- `range` over the empty map writes the empty archive. -/
theorem makeDeployPackage_rangeOrder_empty (env : DeployEnv) (sent : List DeployCall) :
    makeDeployPackage env.writeHeader (env.rangeOrder sent GoMap.empty) = .ok [] := by
  rw [makeDeployPackage, List.perm_nil.mp (env.rangeOrder_perm sent GoMap.empty)]
  rfl

/-- A volume's payload is the package of the projection of the fetched (or
substituted) object. -/
theorem volumePackage_eq_ok_iff {α : Type} {env : DeployEnv} {pod : Pod} {sent : List DeployCall}
    {vol : Volume} {fetched : Except FetchError α} {optional : Bool} {empty : α}
    {files : α → Except String (GoMap PackageFile)} {fetchError : FetchError → DeployError}
    {payloadError : String → DeployError} {payload : List TarEntry} :
    volumePackage env pod sent vol fetched optional empty files fetchError payloadError =
        .ok payload ↔
      ∃ obj packageFiles, fetchOrEmpty fetched optional empty = .ok obj ∧
        files obj = .ok packageFiles ∧
        makeDeployPackage env.writeHeader (env.rangeOrder sent packageFiles) = .ok payload := by
  unfold volumePackage
  cases h₁ : fetchOrEmpty fetched optional empty with
  | error e => simp [Except.mapError, bind, Except.bind, h₁]
  | ok obj =>
    cases h₂ : files obj with
    | error e => simp [Except.mapError, bind, Except.bind, h₁, h₂]
    | ok packageFiles =>
      cases h₃ : makeDeployPackage env.writeHeader (env.rangeOrder sent packageFiles) <;>
        simp [Except.mapError, bind, Except.bind, h₁, h₂, h₃]

theorem map_some_eq_ok_some {ε α : Type} (x : Except ε α) (a : α) :
    x.map some = .ok (some a) ↔ x = .ok a := by
  cases x <;> simp [Except.map]

/-- A ConfigMap volume deploys the package of its ConfigMap's files, the
ConfigMap being the one fetched, or the empty one when the fetch fails with
NotFound and the volume is optional. -/
theorem configMapPayload_eq_ok_iff {env : DeployEnv} {pod : Pod} {sent : List DeployCall}
    {vol : Volume} {cmVol : ConfigMapVolumeSource} (h : vol.configMap = some cmVol)
    (payload : List TarEntry) :
    volumePayload env pod sent vol = .ok (some payload) ↔
      ∃ cm files, (env.rm.getConfigMap cmVol.name pod.ns = .ok cm ∨
          ((∃ msg, env.rm.getConfigMap cmVol.name pod.ns = .error (.notFound msg)) ∧
            cmVol.optional = some true ∧ cm = ⟨pod.ns, cmVol.name, GoMap.empty, GoMap.empty⟩)) ∧
        getConfigMapFiles cmVol cm = .ok files ∧
        makeDeployPackage env.writeHeader (env.rangeOrder sent files) = .ok payload := by
  simp only [volumePayload, h]
  rw [map_some_eq_ok_some, configMapPackage, volumePackage_eq_ok_iff]
  simp only [fetchOrEmpty_eq_ok_iff, decide_eq_true_eq]

/-- A Secret volume deploys the package of its Secret's files, the Secret
being the one fetched, or the empty one when the fetch fails with NotFound
and the volume is optional. -/
theorem secretPayload_eq_ok_iff {env : DeployEnv} {pod : Pod} {sent : List DeployCall}
    {vol : Volume} {secVol : SecretVolumeSource} (h₀ : vol.configMap = none)
    (h : vol.secret = some secVol) (payload : List TarEntry) :
    volumePayload env pod sent vol = .ok (some payload) ↔
      ∃ sec files, (env.rm.getSecret secVol.secretName pod.ns = .ok sec ∨
          ((∃ msg, env.rm.getSecret secVol.secretName pod.ns = .error (.notFound msg)) ∧
            secVol.optional = some true ∧ sec = ⟨pod.ns, secVol.secretName, GoMap.empty⟩)) ∧
        getSecretFiles secVol sec = .ok files ∧
        makeDeployPackage env.writeHeader (env.rangeOrder sent files) = .ok payload := by
  simp only [volumePayload, h₀, h]
  rw [map_some_eq_ok_some, secretPackage, volumePackage_eq_ok_iff]
  simp only [fetchOrEmpty_eq_ok_iff, decide_eq_true_eq]

/-! ## The run -/

/-- The walk succeeds exactly when every volume is prepared and the agent
accepts every call. -/
theorem walkOutcome_ok_iff {env : DeployEnv} {pod : Pod} {vols : List Volume}
    {sent : List DeployCall} {out : List DeployCall × Except DeployError Unit}
    (h : WalkOutcome env pod vols sent out) :
    out.2 = .ok () ↔ Prepared env pod sent vols ∧
      AcceptsAll env.client sent (plannedCalls env pod sent vols) := by
  obtain ⟨pre, post, rfl, hpre, hacc, hend⟩ := h
  rcases hend with ⟨rfl, rfl⟩ |
    ⟨vol, rest, rfl, ⟨e, he, rfl⟩ | ⟨payload, err, hp, hd, rfl⟩⟩
  · rw [List.append_nil]
    exact iff_of_true rfl ⟨hpre, hacc⟩
  · simp only [reduceCtorEq, false_iff, prepared_append]
    rintro ⟨⟨-, ⟨p, hp⟩, -⟩, -⟩
    simp [hp] at he
  · simp only [reduceCtorEq, false_iff, plannedCalls_append, acceptsAll_append]
    rintro ⟨-, -, hall⟩
    have hc : plannedCall env pod (sent ++ plannedCalls env pod sent pre) vol =
        some ⟨pod.name, vol.name, payload⟩ := by
      simp [plannedCall, hp]
    simp [plannedCalls, hc, AcceptsAll, hd] at hall

/-- `deployPodVolumes` walks the pod's volumes in order: some prefix is
prepared and deployed, one call per ConfigMap or Secret volume and none for
other volumes, and the walk either reaches the end or stops at the first
volume whose preparation or `Deploy` fails, calling nothing after it.  It
succeeds exactly when every volume is prepared and every call accepted.
A ConfigMap (else Secret) volume's payload is the package of the files of
the object fetched, the empty object standing in exactly when the fetch
fails with NotFound and the volume is optional; such a volume is then
deployed as the empty archive. -/
theorem deployPodVolumes_spec (env : DeployEnv) (pod : Pod) (sent : List DeployCall) :
    WalkOutcome env pod pod.volumes sent (deployPodVolumes env pod sent) ∧
    ((deployPodVolumes env pod sent).2 = .ok () ↔
      Prepared env pod sent pod.volumes ∧
        AcceptsAll env.client sent (plannedCalls env pod sent pod.volumes)) ∧
    (∀ calls vol, volumePayload env pod calls vol = .ok none ↔
      vol.configMap = none ∧ vol.secret = none) ∧
    (∀ calls vol cmVol payload, vol.configMap = some cmVol →
      (volumePayload env pod calls vol = .ok (some payload) ↔
        ∃ cm files, (env.rm.getConfigMap cmVol.name pod.ns = .ok cm ∨
            ((∃ msg, env.rm.getConfigMap cmVol.name pod.ns = .error (.notFound msg)) ∧
              cmVol.optional = some true ∧ cm = ⟨pod.ns, cmVol.name, GoMap.empty, GoMap.empty⟩)) ∧
          getConfigMapFiles cmVol cm = .ok files ∧
          makeDeployPackage env.writeHeader (env.rangeOrder calls files) = .ok payload)) ∧
    (∀ calls vol secVol payload, vol.configMap = none → vol.secret = some secVol →
      (volumePayload env pod calls vol = .ok (some payload) ↔
        ∃ sec files, (env.rm.getSecret secVol.secretName pod.ns = .ok sec ∨
            ((∃ msg, env.rm.getSecret secVol.secretName pod.ns = .error (.notFound msg)) ∧
              secVol.optional = some true ∧ sec = ⟨pod.ns, secVol.secretName, GoMap.empty⟩)) ∧
          getSecretFiles secVol sec = .ok files ∧
          makeDeployPackage env.writeHeader (env.rangeOrder calls files) = .ok payload)) ∧
    (∀ calls vol cmVol msg, vol.configMap = some cmVol → cmVol.optional = some true →
      env.rm.getConfigMap cmVol.name pod.ns = .error (.notFound msg) →
      volumePayload env pod calls vol = .ok (some [])) ∧
    (∀ calls vol secVol msg, vol.configMap = none → vol.secret = some secVol →
      secVol.optional = some true → env.rm.getSecret secVol.secretName pod.ns =
        .error (.notFound msg) → volumePayload env pod calls vol = .ok (some [])) := by
  have hwalk := walkOutcome_deployVolumes env pod pod.volumes sent
  refine ⟨hwalk, walkOutcome_ok_iff hwalk, volumePayload_eq_ok_none_iff env pod,
    fun _ _ _ _ h => configMapPayload_eq_ok_iff h _,
    fun _ _ _ _ h₀ h => secretPayload_eq_ok_iff h₀ h _, ?_, ?_⟩
  · intro calls vol cmVol msg hcm ho hf
    exact (configMapPayload_eq_ok_iff hcm []).mpr ⟨_, _, .inr ⟨⟨msg, hf⟩, ho, rfl⟩,
      getConfigMapFiles_of_empty ho _ _, makeDeployPackage_rangeOrder_empty env calls⟩
  · intro calls vol secVol msg hcm hsec ho hf
    exact (secretPayload_eq_ok_iff hcm hsec []).mpr ⟨_, _, .inr ⟨⟨msg, hf⟩, ho, rfl⟩,
      getSecretFiles_of_empty ho _ _, makeDeployPackage_rangeOrder_empty env calls⟩

/-- An optional ConfigMap that is missing is deployed empty, a volume of
another kind is skipped, and a missing Secret that is not optional stops the
walk. -/
example : deployPodVolumes
    ⟨⟨fun n _ => .error (.notFound n), fun n _ => .error (.notFound n)⟩, ⟨fun _ _ => none⟩,
      goWriteHeader fun _ => true, fun _ m => m, fun _ _ => List.Perm.refl _⟩
    ⟨"web", "default", [⟨"cfg", some ⟨"cfg", [], none, some true⟩, none⟩,
      ⟨"scratch", none, none⟩, ⟨"tls", none, some ⟨"tls", [], none, none⟩⟩]⟩ [] =
    ([⟨"web", "cfg", []⟩], .error (.getSecret "default" "tls" (.notFound "tls"))) := rfl

end Kip
