import Kip.Server.Package

/-!
# Kip.Server.Files

`getConfigMapFiles` and `getSecretFiles` (`pkg/server/deploy_util.go`): the
files a ConfigMap or Secret volume projects, as a map `path ↦ (bytes, mode)`
for `makeDeployPackage`.

The two functions are one loop over the volume's items: look the key up,
skip it (optional volume) or fail (otherwise) when it is missing, and write
its data at `item.Path` (or the key) with `item.Mode` (or the volume's
default mode, `0644` when unset).  They differ in where a key is looked up
(a ConfigMap has `Data` strings, then `BinaryData` bytes; a Secret only
`Data` bytes), in the item list used when `Items` is empty, and in the
error text.  `projectItems` is that loop; each function is it applied to
its own lookup, items and message.

The specifications are stated over `projectionFold`: items in order,
absent keys skipped, a later item overwriting an earlier one at the same
path, so that each path holds the last item written there
(`projectedFiles_lastWrite`).
-/

namespace Kip

/-- `api.KeyToPath`: a key of the object and where to put it. -/
structure KeyToPath where
  key : String
  path : String
  mode : Option Int
  deriving DecidableEq, Repr

/-- `api.ConfigMapVolumeSource`; `name` is `LocalObjectReference.Name`. -/
structure ConfigMapVolumeSource where
  name : String
  items : List KeyToPath
  defaultMode : Option Int
  optional : Option Bool

/-- `api.SecretVolumeSource`. -/
structure SecretVolumeSource where
  secretName : String
  items : List KeyToPath
  defaultMode : Option Int
  optional : Option Bool

/-- The fields of `v1.ConfigMap` the projection reads. -/
structure ConfigMap where
  ns : String
  name : String
  data : GoMap String
  binaryData : GoMap Bytes

/-- The fields of `v1.Secret` the projection reads. -/
structure Secret where
  ns : String
  name : String
  data : GoMap Bytes

/-- The conversion `[]byte(s)`: the UTF-8 bytes of a string. -/
def toBytes (s : String) : Bytes := s.toUTF8.data.toList

/-- The path an item is written at: `item.Path` when set, else the key. -/
def KeyToPath.archivePath (item : KeyToPath) : String :=
  if item.path ≠ "" then item.path else item.key

@[simp] theorem archivePath_of_path_ne {item : KeyToPath} (h : item.path ≠ "") :
    item.archivePath = item.path := if_pos h

@[simp] theorem archivePath_of_path_eq {item : KeyToPath} (h : item.path = "") :
    item.archivePath = item.key := if_neg (not_not.mpr h)

/-- The item `api.KeyToPath{Key: k}` built for every key when `Items` is
empty. -/
def keyItem (k : String) : KeyToPath := ⟨k, "", none⟩

@[simp] theorem keyItem_key (k : String) : (keyItem k).key = k := rfl

@[simp] theorem keyItem_mode (k : String) : (keyItem k).mode = none := rfl

@[simp] theorem archivePath_keyItem (k : String) : (keyItem k).archivePath = k :=
  archivePath_of_path_eq rfl

/-- The items projected: the volume's `Items`, or one item per key of the
object when there are none. -/
def projectedItems (items : List KeyToPath) (keys : List String) : List KeyToPath :=
  if items.length = 0 then keys.map keyItem else items

/-- The error for an item whose key the object lacks; both functions use
the same format, with the volume's name, the object's namespace and name,
and the key. -/
def nonExistentKeyError (volume ns name key : String) : String :=
  "volume " ++ volume ++ " items " ++ ns ++ "/" ++ name ++
    " references non-existent config key: " ++ key

/-- The loop shared by `getConfigMapFiles` and `getSecretFiles`: `lookup`
reads a key of the object, `missing` is the error for an absent key. -/
def projectItems (lookup : String → Option Bytes) (missing : String → String)
    (defaultMode : Int) (optional : Bool) :
    List KeyToPath → GoMap PackageFile → Except String (GoMap PackageFile)
  | [], packageItems => .ok packageItems
  | item :: items, packageItems =>
    match lookup item.key with
    | some data =>
      projectItems lookup missing defaultMode optional items
        (packageItems.set item.archivePath ⟨data, item.mode.getD defaultMode⟩)
    | none =>
      if optional then projectItems lookup missing defaultMode optional items packageItems
      else .error (missing item.key)

/-- A ConfigMap key: `cm.Data` first (as bytes), then `cm.BinaryData`. -/
def configMapLookup (cm : ConfigMap) (k : String) : Option Bytes :=
  match cm.data.get? k with
  | some stringData => some (toBytes stringData)
  | none => cm.binaryData.get? k

@[simp] theorem configMapLookup_of_data {cm : ConfigMap} {k s : String}
    (h : cm.data.get? k = some s) : configMapLookup cm k = some (toBytes s) := by
  rw [configMapLookup, h]

@[simp] theorem configMapLookup_of_not_data {cm : ConfigMap} {k : String}
    (h : cm.data.get? k = none) : configMapLookup cm k = cm.binaryData.get? k := by
  rw [configMapLookup, h]

/-- A ConfigMap key reads `Data` as bytes, else `BinaryData`. -/
theorem configMapLookup_eq (cm : ConfigMap) (k : String) :
    configMapLookup cm k = ((cm.data.get? k).map toBytes).or (cm.binaryData.get? k) := by
  cases h : cm.data.get? k <;> simp [h]

/-- `getConfigMapFiles(cmVol, cm)`. -/
def getConfigMapFiles (cmVol : ConfigMapVolumeSource) (cm : ConfigMap) :
    Except String (GoMap PackageFile) :=
  projectItems (configMapLookup cm) (nonExistentKeyError cmVol.name cm.ns cm.name)
    (cmVol.defaultMode.getD defaultVolumeFileMode) (cmVol.optional = some true)
    (projectedItems cmVol.items (cm.data.keys ++ cm.binaryData.keys)) GoMap.empty

/-- `getSecretFiles(secVol, sec)`. -/
def getSecretFiles (secVol : SecretVolumeSource) (sec : Secret) :
    Except String (GoMap PackageFile) :=
  projectItems sec.data.get? (nonExistentKeyError secVol.secretName sec.ns sec.name)
    (secVol.defaultMode.getD defaultVolumeFileMode) (secVol.optional = some true)
    (projectedItems secVol.items sec.data.keys) GoMap.empty

/-! ## The projection loop -/

section projectItems

variable (lookup : String → Option Bytes) (missing : String → String) (d : Int) (o : Bool)

/-- The fold the projection performs, over reads of the map being built:
items in order, absent keys skipped, each present item written at its
path. -/
def projectionFold (items : List KeyToPath) (f : String → Option PackageFile) :
    String → Option PackageFile :=
  items.foldl (fun f item =>
    match lookup item.key with
    | some data => Function.update f item.archivePath (some ⟨data, item.mode.getD d⟩)
    | none => f) f

theorem projectionFold_cons (item : KeyToPath) (items : List KeyToPath)
    (f : String → Option PackageFile) :
    projectionFold lookup d (item :: items) f =
      projectionFold lookup d items (match lookup item.key with
        | some data => Function.update f item.archivePath (some ⟨data, item.mode.getD d⟩)
        | none => f) := rfl

/-- The loop fails exactly when the volume is not optional and some item's
key is absent. -/
theorem projectItems_isError (items : List KeyToPath) (acc : GoMap PackageFile) :
    (∃ e, projectItems lookup missing d o items acc = .error e) ↔
      o = false ∧ ∃ item ∈ items, lookup item.key = none := by
  induction items generalizing acc with
  | nil => simp [projectItems]
  | cons item items ih =>
    cases hl : lookup item.key with
    | some data => simp [projectItems, hl, ih]
    | none => cases o <;> simp [projectItems, hl, ih]

/-- A successful run reads as `projectionFold` from the map it started
with. -/
theorem get?_projectItems {items : List KeyToPath} {acc m : GoMap PackageFile}
    (h : projectItems lookup missing d o items acc = .ok m) :
    m.get? = projectionFold lookup d items acc.get? := by
  induction items generalizing acc with
  | nil => simp only [projectItems, Except.ok.injEq] at h; subst h; rfl
  | cons item items ih =>
    simp only [projectItems] at h
    cases hl : lookup item.key with
    | some data =>
      rw [hl] at h
      rw [ih h, projectionFold_cons, hl, GoMap.get?_set_eq_update]
    | none =>
      rw [hl] at h
      cases o
      · simp at h
      · rw [ih h, projectionFold_cons, hl]

/-- What an item writes at the path `p`: its key's data with its mode, when
its archive path is `p` and the object has the key. -/
def writtenAt (item : KeyToPath) (p : String) : Option PackageFile :=
  if item.archivePath = p then (lookup item.key).map (⟨·, item.mode.getD d⟩) else none

/-- The projection leaves at every path the last item written there, over
what it started with. -/
theorem projectionFold_eq_lastWrite (items : List KeyToPath) (f : String → Option PackageFile)
    (p : String) :
    projectionFold lookup d items f p = (GoMap.lastWrite (writtenAt lookup d) items p).or (f p) := by
  refine GoMap.foldl_eq_lastWrite (fun f item p => ?_) items f p
  unfold writtenAt
  cases lookup item.key with
  | none => simp
  | some data =>
    by_cases hp : item.archivePath = p
    · subst hp; simp
    · simp [hp, Function.update_apply, Ne.symm hp]

/-- A successful run from the empty map holds, at every path, the last item
written there. -/
theorem get?_projectItems_empty {items : List KeyToPath} {m : GoMap PackageFile}
    (h : projectItems lookup missing d o items GoMap.empty = .ok m) (p : String) :
    m.get? p = GoMap.lastWrite (writtenAt lookup d) items p := by
  rw [get?_projectItems lookup missing d o h, projectionFold_eq_lastWrite, GoMap.get?_empty,
    Option.or_none]

/-- When no key is missing, or the volume is optional, the loop succeeds. -/
theorem projectItems_ok (items : List KeyToPath) (acc : GoMap PackageFile)
    (h : ¬ (o = false ∧ ∃ item ∈ items, lookup item.key = none)) :
    ∃ m, projectItems lookup missing d o items acc = .ok m := by
  cases hr : projectItems lookup missing d o items acc with
  | ok m => exact ⟨m, rfl⟩
  | error e => exact absurd ((projectItems_isError lookup missing d o items acc).mp ⟨e, hr⟩) h

/-- The loop does not depend on the error text but for the error itself. -/
theorem projectItems_ok_iff_of_missing (missing' : String → String)
    (items : List KeyToPath) (acc m : GoMap PackageFile) :
    projectItems lookup missing d o items acc = .ok m ↔
      projectItems lookup missing' d o items acc = .ok m := by
  induction items generalizing acc with
  | nil => rfl
  | cons item items ih =>
    cases hl : lookup item.key with
    | some data => simp [projectItems, hl, ih]
    | none => cases o <;> simp [projectItems, hl, ih]

/-- An object that lacks every key projects, on an optional volume, to the
map the loop started with. -/
theorem projectItems_of_lookup_none (hl : ∀ k, lookup k = none) (items : List KeyToPath)
    (acc : GoMap PackageFile) : projectItems lookup missing d true items acc = .ok acc := by
  induction items with
  | nil => rfl
  | cons item items ih => simp [projectItems, hl, ih]

/-- Every path the loop writes is an item's archive path. -/
theorem mem_keys_projectItems {items : List KeyToPath} {acc m : GoMap PackageFile}
    (h : projectItems lookup missing d o items acc = .ok m) {k : String} (hk : k ∈ m.keys) :
    k ∈ acc.keys ∨ ∃ item ∈ items, item.archivePath = k := by
  induction items generalizing acc with
  | nil => simp only [projectItems, Except.ok.injEq] at h; exact .inl (h ▸ hk)
  | cons item items ih =>
    simp only [projectItems] at h
    split at h
    · rcases ih h with hk | ⟨i, hi, rfl⟩
      · rcases (GoMap.mem_keys_set _ _ _ _).mp hk with rfl | hk
        · exact .inr ⟨item, List.mem_cons_self _ _, rfl⟩
        · exact .inl hk
      · exact .inr ⟨i, List.mem_cons_of_mem _ hi, rfl⟩
    · split at h
      · rcases ih h with hk | ⟨i, hi, rfl⟩
        · exact .inl hk
        · exact .inr ⟨i, List.mem_cons_of_mem _ hi, rfl⟩
      · cases h

end projectItems

/-! ## ConfigMap volumes -/

/-- Projecting one item per key writes every present key at itself with the
default mode, whatever the order of the keys. -/
theorem projectionFold_keyItems (lookup : String → Option Bytes) (d : Int) (ks : List String)
    (f : String → Option PackageFile) (p : String) :
    projectionFold lookup d (ks.map keyItem) f p =
      (if p ∈ ks then (lookup p).map (⟨·, d⟩) else none).or (f p) := by
  induction ks generalizing f with
  | nil => simp [projectionFold]
  | cons k ks ih =>
    rw [List.map_cons, projectionFold_cons, ih]
    by_cases hp : p = k
    · subst hp
      cases hl : lookup p <;> by_cases hm : p ∈ ks <;> simp [hl, hm, Function.update_apply]
    · cases hl : lookup k <;> simp [hp, hl, Function.update_apply]

/-- A key is found in a ConfigMap exactly when it is a key of `Data` or of
`BinaryData`. -/
theorem configMapLookup_isSome_iff (cm : ConfigMap) (k : String) :
    (configMapLookup cm k).isSome ↔ k ∈ cm.data.keys ∨ k ∈ cm.binaryData.keys := by
  rw [GoMap.mem_keys_iff, GoMap.mem_keys_iff, configMapLookup_eq]
  cases cm.data.get? k <;> simp

/-- With no items, every key of `Data` and `BinaryData` is projected at
itself with the default mode. -/
theorem getConfigMapFiles_of_items_nil {cmVol : ConfigMapVolumeSource} (hnil : cmVol.items = [])
    (cm : ConfigMap) :
    ∃ m, getConfigMapFiles cmVol cm = .ok m ∧
      (∀ k, k ∈ m.keys ↔ k ∈ cm.data.keys ∨ k ∈ cm.binaryData.keys) ∧
      ∀ k, m.get? k =
        (configMapLookup cm k).map (⟨·, cmVol.defaultMode.getD defaultVolumeFileMode⟩) := by
  simp only [getConfigMapFiles, hnil, projectedItems, List.length_nil, if_true]
  obtain ⟨m, hm⟩ := projectItems_ok (configMapLookup cm)
    (nonExistentKeyError cmVol.name cm.ns cm.name) (cmVol.defaultMode.getD defaultVolumeFileMode)
    (cmVol.optional = some true) ((cm.data.keys ++ cm.binaryData.keys).map keyItem) GoMap.empty
    (by
      simp only [List.mem_map, keyItem_key, not_and, not_exists, ← Option.not_isSome_iff_eq_none,
        configMapLookup_isSome_iff]
      rintro - _ ⟨k, hk, rfl⟩ hk'
      exact hk' (by simpa using List.mem_append.mp hk))
  have hget : ∀ k, m.get? k =
      (configMapLookup cm k).map (⟨·, cmVol.defaultMode.getD defaultVolumeFileMode⟩) := by
    intro k
    rw [get?_projectItems _ _ _ _ hm, projectionFold_keyItems]
    by_cases hk : k ∈ cm.data.keys ++ cm.binaryData.keys
    · simp [hk]
    · have : configMapLookup cm k = none := by
        rw [← Option.not_isSome_iff_eq_none, configMapLookup_isSome_iff]
        simpa using hk
      simp [hk, this]
  refine ⟨m, hm, fun k => ?_, hget⟩
  simp [GoMap.mem_keys_iff, hget, configMapLookup_isSome_iff]

/-- With items, the call fails exactly when the volume is not optional and an
item's key is absent, and otherwise returns the fold of the items. -/
theorem getConfigMapFiles_of_items_ne_nil {cmVol : ConfigMapVolumeSource}
    (hne : cmVol.items ≠ []) (cm : ConfigMap) :
    ((∃ e, getConfigMapFiles cmVol cm = .error e) ↔
      cmVol.optional ≠ some true ∧ ∃ item ∈ cmVol.items, configMapLookup cm item.key = none) ∧
    (¬ (cmVol.optional ≠ some true ∧ ∃ item ∈ cmVol.items, configMapLookup cm item.key = none) →
      ∃ m, getConfigMapFiles cmVol cm = .ok m ∧
        m.get? = projectionFold (configMapLookup cm)
          (cmVol.defaultMode.getD defaultVolumeFileMode) cmVol.items (fun _ => none)) := by
  have hitems : projectedItems cmVol.items (cm.data.keys ++ cm.binaryData.keys) = cmVol.items := by
    simp [projectedItems, hne]
  have herr := projectItems_isError (configMapLookup cm)
    (nonExistentKeyError cmVol.name cm.ns cm.name) (cmVol.defaultMode.getD defaultVolumeFileMode)
    (cmVol.optional = some true) cmVol.items GoMap.empty
  simp only [decide_eq_false_iff_not] at herr
  rw [getConfigMapFiles, hitems]
  refine ⟨herr, fun hok => ?_⟩
  obtain ⟨m, hm⟩ := projectItems_ok (configMapLookup cm)
    (nonExistentKeyError cmVol.name cm.ns cm.name) (cmVol.defaultMode.getD defaultVolumeFileMode)
    (cmVol.optional = some true) cmVol.items GoMap.empty (by simpa using hok)
  exact ⟨m, hm, get?_projectItems _ _ _ _ hm⟩

/-- `getConfigMapFiles`: with no items, every key of `Data` and
`BinaryData` is projected at itself with the default mode, `Data` first;
with items, the call fails exactly when the volume is not optional and an
item's key is absent, and otherwise returns the fold of the items. -/
theorem getConfigMapFiles_spec (cmVol : ConfigMapVolumeSource) (cm : ConfigMap) :
    (cmVol.items = [] →
      ∃ m, getConfigMapFiles cmVol cm = .ok m ∧
        (∀ k, k ∈ m.keys ↔ k ∈ cm.data.keys ∨ k ∈ cm.binaryData.keys) ∧
        ∀ k, m.get? k =
          (configMapLookup cm k).map (⟨·, cmVol.defaultMode.getD defaultVolumeFileMode⟩)) ∧
    (cmVol.items ≠ [] →
      ((∃ e, getConfigMapFiles cmVol cm = .error e) ↔
        cmVol.optional ≠ some true ∧ ∃ item ∈ cmVol.items, configMapLookup cm item.key = none) ∧
      (¬ (cmVol.optional ≠ some true ∧ ∃ item ∈ cmVol.items, configMapLookup cm item.key = none) →
        ∃ m, getConfigMapFiles cmVol cm = .ok m ∧
          m.get? = projectionFold (configMapLookup cm)
            (cmVol.defaultMode.getD defaultVolumeFileMode) cmVol.items (fun _ => none))) :=
  ⟨fun h => getConfigMapFiles_of_items_nil h cm, fun h => getConfigMapFiles_of_items_ne_nil h cm⟩

/-! ## Secret volumes -/

/-- `getSecretFiles` is `getConfigMapFiles` of a ConfigMap with no `Data`
and the Secret's `Data` as `BinaryData`, under a volume with the same items,
default mode and optionality: the two fail together and otherwise return
the same map.  Only the error text differs. -/
theorem getSecretFiles_eq_getConfigMapFiles (secVol : SecretVolumeSource) (sec : Secret)
    (name ns cmName : String) :
    ((∃ e, getSecretFiles secVol sec = .error e) ↔
      ∃ e, getConfigMapFiles ⟨name, secVol.items, secVol.defaultMode, secVol.optional⟩
        ⟨ns, cmName, GoMap.empty, sec.data⟩ = .error e) ∧
    ∀ m, getSecretFiles secVol sec = .ok m ↔
      getConfigMapFiles ⟨name, secVol.items, secVol.defaultMode, secVol.optional⟩
        ⟨ns, cmName, GoMap.empty, sec.data⟩ = .ok m := by
  have hlookup : configMapLookup ⟨ns, cmName, GoMap.empty, sec.data⟩ = sec.data.get? := by
    funext k; simp [configMapLookup]
  simp only [getSecretFiles, getConfigMapFiles, hlookup, GoMap.keys_empty, List.nil_append]
  exact ⟨by rw [projectItems_isError, projectItems_isError],
    fun m => projectItems_ok_iff_of_missing _ _ _ _ _ _ _ m⟩

/-! ## Empty objects -/

/-- An optional volume projects an object with no keys to no files. -/
theorem getConfigMapFiles_of_empty {cmVol : ConfigMapVolumeSource}
    (ho : cmVol.optional = some true) (ns name : String) :
    getConfigMapFiles cmVol ⟨ns, name, GoMap.empty, GoMap.empty⟩ = .ok GoMap.empty := by
  simpa [getConfigMapFiles, ho] using
    projectItems_of_lookup_none _ _ _ (fun k => by simp [configMapLookup]) _ _

theorem getSecretFiles_of_empty {secVol : SecretVolumeSource}
    (ho : secVol.optional = some true) (ns name : String) :
    getSecretFiles secVol ⟨ns, name, GoMap.empty⟩ = .ok GoMap.empty := by
  simpa [getSecretFiles, ho] using projectItems_of_lookup_none _ _ _ (fun k => by simp) _ _

/-! ## Archive paths -/

/-- The paths of the projected items: the items' own, or the object's keys
when there are no items. -/
theorem mem_archivePaths_projectedItems {items : List KeyToPath} {keys : List String}
    {item : KeyToPath} (h : item ∈ projectedItems items keys) :
    item ∈ items ∨ item.archivePath ∈ keys := by
  unfold projectedItems at h
  split_ifs at h
  · obtain ⟨k, hk, rfl⟩ := List.mem_map.mp h
    exact .inr (by simpa using hk)
  · exact .inl h

/-- Every path of a ConfigMap's files is an item's path or a key of the
ConfigMap. -/
theorem mem_keys_getConfigMapFiles {cmVol : ConfigMapVolumeSource} {cm : ConfigMap}
    {m : GoMap PackageFile} (h : getConfigMapFiles cmVol cm = .ok m) {k : String}
    (hk : k ∈ m.keys) :
    (∃ item ∈ cmVol.items, item.archivePath = k) ∨ k ∈ cm.data.keys ++ cm.binaryData.keys := by
  rcases mem_keys_projectItems _ _ _ _ h hk with hk | ⟨item, hi, rfl⟩
  · simp at hk
  · exact (mem_archivePaths_projectedItems hi).imp (fun hi => ⟨item, hi, rfl⟩) id

/-- Every path of a Secret's files is an item's path or a key of the
Secret. -/
theorem mem_keys_getSecretFiles {secVol : SecretVolumeSource} {sec : Secret}
    {m : GoMap PackageFile} (h : getSecretFiles secVol sec = .ok m) {k : String}
    (hk : k ∈ m.keys) : (∃ item ∈ secVol.items, item.archivePath = k) ∨ k ∈ sec.data.keys := by
  rcases mem_keys_projectItems _ _ _ _ h hk with hk | ⟨item, hi, rfl⟩
  · simp at hk
  · exact (mem_archivePaths_projectedItems hi).imp (fun hi => ⟨item, hi, rfl⟩) id

/-! ## The last item wins -/

/-- Read at any path, a ConfigMap's files hold the last projected item
written there. -/
theorem get?_getConfigMapFiles {cmVol : ConfigMapVolumeSource} {cm : ConfigMap}
    {m : GoMap PackageFile} (h : getConfigMapFiles cmVol cm = .ok m) (p : String) :
    m.get? p = GoMap.lastWrite
      (writtenAt (configMapLookup cm) (cmVol.defaultMode.getD defaultVolumeFileMode))
      (projectedItems cmVol.items (cm.data.keys ++ cm.binaryData.keys)) p :=
  get?_projectItems_empty _ _ _ _ h p

/-- Read at any path, a Secret's files hold the last projected item written
there. -/
theorem get?_getSecretFiles {secVol : SecretVolumeSource} {sec : Secret}
    {m : GoMap PackageFile} (h : getSecretFiles secVol sec = .ok m) (p : String) :
    m.get? p = GoMap.lastWrite
      (writtenAt sec.data.get? (secVol.defaultMode.getD defaultVolumeFileMode))
      (projectedItems secVol.items sec.data.keys) p :=
  get?_projectItems_empty _ _ _ _ h p

/-- Whatever order `range` visits the object's keys in, the files of a
ConfigMap or Secret hold at each path the data and mode of the last
projected item written there whose key the object has, and nothing where no
such item is written: an item overwrites any earlier one at its path. -/
theorem projectedFiles_lastWrite :
    (∀ cmVol cm (m : GoMap PackageFile), getConfigMapFiles cmVol cm = .ok m → ∀ p,
      m.get? p = GoMap.lastWrite
        (writtenAt (configMapLookup cm) (cmVol.defaultMode.getD defaultVolumeFileMode))
        (projectedItems cmVol.items (cm.data.keys ++ cm.binaryData.keys)) p) ∧
    (∀ secVol sec (m : GoMap PackageFile), getSecretFiles secVol sec = .ok m → ∀ p,
      m.get? p = GoMap.lastWrite
        (writtenAt sec.data.get? (secVol.defaultMode.getD defaultVolumeFileMode))
        (projectedItems secVol.items sec.data.keys) p) :=
  ⟨fun _ _ _ => get?_getConfigMapFiles, fun _ _ _ => get?_getSecretFiles⟩

end Kip
