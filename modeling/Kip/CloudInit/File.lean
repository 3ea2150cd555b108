import Kip.Server.Files

/-!
# Kip.CloudInit.File

The cloud-init file of a cell (`cloudinitfile.File`): the user's cloud
config, loaded once by `New`, and the files Kip adds to it, a map from path
to `cc.File`.  `AddKipFile` writes an entry under its path, owned by
`root`; `AddItzoVersion`, `AddItzoURL` and `AddCellConfig` write the three
files under `/tmp/itzo`, and do nothing on an empty argument;
`ResetInstanceData` empties the map.  `Contents` appends Kip's files to the
user's `write_files`, marshals the config and puts the `#cloud-config`
header in front, refusing a result over `maxCloudInitSize` bytes.

`yaml.Marshal` (of the config, and of the cell config map), the reading of
the user's file and the order in which `range` visits the map are the
environment, a `CloudInitEnv`.  The file is a transition system:
`Reachable` holds of what `New` returns and of what any operation makes of
a reachable file.  Every reachable file keeps each of Kip's files under its
own path, owned by `root` (`Reachable.wellFormed`), so `Contents` writes
the user's files and then each of Kip's files once, at distinct paths.
Over any run, the file at a path is the one the last method that touched
the path left there (`get?_foldl_apply`): a reset clears every path, and a
method given an empty argument leaves the earlier file in place.

`semverRegex` is matched by a recogniser written for its one pattern.  Each
repeated group of the pattern is followed only by characters it cannot
contain, so every group takes the longest run it can, and the recogniser
needs no backtracking.
-/

namespace Kip

namespace CloudInit

/-! ## The semver pattern -/

/-- `[0-9A-Za-z\-]`. -/
def isIdentChar (c : Char) : Bool := c.isAlphanum || c == '-'

/-- `[0-9]+`: the text after a non-empty run of digits. -/
def digitsRest (cs : List Char) : Option (List Char) :=
  if (cs.takeWhile Char.isDigit).isEmpty then none else some (cs.dropWhile Char.isDigit)

/-- `[0-9A-Za-z\-]+(\.[0-9A-Za-z\-]+)*`: the text after a run of
identifiers joined by single dots. -/
def identsRest (cs : List Char) : Option (List Char) :=
  if ((cs.takeWhile fun c => isIdentChar c || c == '.').splitOn '.').all (! ·.isEmpty) then
    some (cs.dropWhile fun c => isIdentChar c || c == '.')
  else none

/-- `sep` followed by `part`. -/
def after (sep : Char) (part : List Char → Option (List Char)) :
    List Char → Option (List Char)
  | c :: cs => if c = sep then part cs else none
  | [] => none

/-- `(sep part)?`, taken whenever `sep` comes next. -/
def optAfter (sep : Char) (part : List Char → Option (List Char)) :
    List Char → Option (List Char)
  | c :: cs => if c = sep then part cs else some (c :: cs)
  | [] => some []

/-- The pattern after its optional `v`, anchored at both ends:
`([0-9]+)(\.[0-9]+)(\.[0-9]+)?(-idents)?(\+idents)?`. -/
def semverCore (cs : List Char) : Bool :=
  match digitsRest cs >>= after '.' digitsRest >>= optAfter '.' digitsRest >>=
      optAfter '-' identsRest >>= optAfter '+' identsRest with
  | some [] => true
  | _ => false

/-- `semverRegex.MatchString(s)`. -/
def semverMatch (s : String) : Bool :=
  match s.data with
  | 'v' :: cs => semverCore cs
  | cs => semverCore cs

example : semverMatch "1.2.3" ∧ semverMatch "v0.1" ∧ semverMatch "1.2.3-rc.1+build-7" ∧
    ! semverMatch "latest" ∧ ! semverMatch "1" ∧ ! semverMatch "1.2." ∧
    ! semverMatch "1.2-rc..1" := by decide

/-! ## The file and its operations -/

/-- `cc.File`, the fields `AddKipFile` sets. -/
structure CcFile where
  content : String
  path : String
  owner : String
  rawFilePermissions : String
  deriving DecidableEq, Repr

/-- `cc.CloudConfig`, as `Contents` reads it. -/
structure CloudConfig where
  writeFiles : List CcFile
  deriving DecidableEq, Repr

/-- `cloudinitfile.File`. -/
structure File where
  userData : CloudConfig
  kipFiles : GoMap CcFile

/-- What the file's methods call outside the package. -/
structure CloudInitEnv where
  /-- `loadUserCloudConfig(path)`: read the file and unmarshal it. -/
  load : String → Except String CloudConfig
  /-- `yaml.Marshal(mergedConfig)`. -/
  marshal : CloudConfig → Except String Bytes
  /-- `yaml.Marshal(cfg)` of a cell config. -/
  marshalCellConfig : GoMap String → Except String String
  /-- The order in which `range` visits `kipFiles`. -/
  rangeOrder : GoMap CcFile → GoMap CcFile
  rangeOrder_perm : ∀ m, (rangeOrder m).entries.Perm m.entries

/-- `itzoDir`. -/
def itzoDir : String := "/tmp/itzo"

/-- `ItzoVersionPath`. -/
def itzoVersionPath : String := itzoDir ++ "/itzo_version"

/-- `ItzoURLPath`. -/
def itzoURLPath : String := itzoDir ++ "/itzo_url"

/-- `CellConfigPath`. -/
def cellConfigPath : String := itzoDir ++ "/cell_config.yaml"

/-- `cloudInitHeader`. -/
def cloudInitHeader : Bytes := toBytes "#cloud-config\n"

/-- `maxCloudInitSize`. -/
def maxCloudInitSize : Nat := 16000

/-- The error of `New`: `Could not load user's cloud config file at %s`,
wrapping the error of the load. -/
structure NewError where
  path : String
  err : String
  deriving DecidableEq, Repr

/-- `New(path)`: the user's config when a path is given, and no Kip
file. -/
def File.new (env : CloudInitEnv) (path : String) : Except NewError File :=
  if path ≠ "" then
    match env.load path with
    | .error err => .error ⟨path, err⟩
    | .ok userData => .ok ⟨userData, GoMap.empty⟩
  else .ok ⟨⟨[]⟩, GoMap.empty⟩

/-- `f.ResetInstanceData()`. -/
def File.resetInstanceData (f : File) : File := { f with kipFiles := GoMap.empty }

/-- `f.AddKipFile(content, path, permissions)`. -/
def File.addKipFile (f : File) (content path permissions : String) : File :=
  { f with kipFiles := f.kipFiles.set path ⟨content, path, "root", permissions⟩ }

/-- The version `AddItzoVersion` writes: a `v` is put in front of a semver
version that lacks one (itzo releases are named `itzo-v1.2.3`). -/
def itzoVersion (version : String) : String :=
  if version ≠ "latest" ∧ version.data.head? ≠ some 'v' ∧ semverMatch version then
    "v" ++ version
  else version

/-- `f.AddItzoVersion(version)`. -/
def File.addItzoVersion (f : File) (version : String) : File :=
  if version = "" then f else f.addKipFile (itzoVersion version) itzoVersionPath "0444"

/-- `f.AddItzoURL(url)`. -/
def File.addItzoURL (f : File) (url : String) : File :=
  if url = "" then f else f.addKipFile url itzoURLPath "0444"

/-- `f.AddCellConfig(cfg)`: a config that does not marshal is dropped. -/
def File.addCellConfig (env : CloudInitEnv) (f : File) (cfg : GoMap String) : File :=
  if cfg.entries.length = 0 then f
  else
    match env.marshalCellConfig cfg with
    | .error _ => f
    | .ok buf => f.addKipFile buf cellConfigPath "0444"

/-- The `write_files` of the merged config: the user's, then Kip's in
`range` order. -/
def File.mergedFiles (env : CloudInitEnv) (f : File) : List CcFile :=
  f.userData.writeFiles ++ (env.rangeOrder f.kipFiles).entries.map Prod.snd

/-- `f.Contents()`. -/
def File.contents (env : CloudInitEnv) (f : File) : Except String Bytes :=
  match env.marshal { f.userData with writeFiles := f.mergedFiles env } with
  | .error err => .error err
  | .ok mergedContent =>
    if maxCloudInitSize < (cloudInitHeader ++ mergedContent).length then
      .error "Cloud init data length is over 16K"
    else .ok (cloudInitHeader ++ mergedContent)

/-- The methods that change a `File` after `New`. -/
inductive Op where
  | addKipFile (content path permissions : String)
  | addItzoVersion (version : String)
  | addItzoURL (url : String)
  | addCellConfig (cfg : GoMap String)
  | resetInstanceData

/-- One method call. -/
def File.apply (env : CloudInitEnv) (f : File) : Op → File
  | .addKipFile content path permissions => f.addKipFile content path permissions
  | .addItzoVersion version => f.addItzoVersion version
  | .addItzoURL url => f.addItzoURL url
  | .addCellConfig cfg => f.addCellConfig env cfg
  | .resetInstanceData => f.resetInstanceData

/-- The files a program can hold: one `New` returned, then any method
calls. -/
inductive Reachable (env : CloudInitEnv) : File → Prop
  | new {path : String} {f : File} (h : File.new env path = .ok f) : Reachable env f
  | step {f : File} (h : Reachable env f) (op : Op) : Reachable env (f.apply env op)

/-! ## Every Kip file sits under its own path -/

/-- Each of Kip's files is stored under its own path and owned by `root`. -/
def File.WellFormed (f : File) : Prop :=
  ∀ path file, f.kipFiles.get? path = some file → file.path = path ∧ file.owner = "root"

theorem File.wellFormed_new {env : CloudInitEnv} {path : String} {f : File}
    (h : File.new env path = .ok f) : f.WellFormed := by
  have : f.kipFiles = GoMap.empty := by
    unfold File.new at h
    split_ifs at h
    · split at h <;> cases h; rfl
    · cases h; rfl
  simp [File.WellFormed, this]

theorem File.WellFormed.addKipFile {f : File} (hf : f.WellFormed)
    (content path permissions : String) : (f.addKipFile content path permissions).WellFormed := by
  intro p file h
  simp only [File.addKipFile, GoMap.get?_set] at h
  split_ifs at h with hp
  · cases h; exact ⟨hp.symm, rfl⟩
  · exact hf p file h

/-- What one method does to Kip's files: nothing, one `AddKipFile`, or a
reset. -/
theorem File.apply_cases (env : CloudInitEnv) (f : File) (op : Op) :
    f.apply env op = f ∨
      (∃ content path permissions, f.apply env op = f.addKipFile content path permissions) ∨
      f.apply env op = f.resetInstanceData := by
  cases op with
  | addKipFile content path permissions => exact .inr (.inl ⟨content, path, permissions, rfl⟩)
  | addItzoVersion version =>
    dsimp only [File.apply, File.addItzoVersion]; split_ifs
    exacts [.inl rfl, .inr (.inl ⟨_, _, _, rfl⟩)]
  | addItzoURL url =>
    dsimp only [File.apply, File.addItzoURL]; split_ifs
    exacts [.inl rfl, .inr (.inl ⟨_, _, _, rfl⟩)]
  | addCellConfig cfg =>
    dsimp only [File.apply, File.addCellConfig]; split_ifs
    · exact .inl rfl
    · split
      exacts [.inl rfl, .inr (.inl ⟨_, _, _, rfl⟩)]
  | resetInstanceData => exact .inr (.inr rfl)

/-- Every method keeps the file well formed. -/
theorem File.WellFormed.apply {env : CloudInitEnv} {f : File} (hf : f.WellFormed) (op : Op) :
    (f.apply env op).WellFormed := by
  rcases File.apply_cases env f op with h | ⟨content, path, permissions, h⟩ | h <;> rw [h]
  · exact hf
  · exact hf.addKipFile content path permissions
  · simp [File.resetInstanceData, File.WellFormed]

/-- Every reachable file is well formed. -/
theorem Reachable.wellFormed {env : CloudInitEnv} {f : File} (h : Reachable env f) :
    f.WellFormed := by
  induction h with
  | new h => exact File.wellFormed_new h
  | step _ op ih => exact ih.apply op

/-! ## Kip's files over a run

Each method leaves one path of Kip's files alone or writes it, except the
reset, which clears every path.  After any run, the file at a path is the
one the last method that touched it left there (none after a reset), or
the one the run started with when no method touched it. -/

/-- What a method leaves at the path `p` of Kip's files: `none` when it
leaves `p` alone, else `some` of what is at `p` afterwards. -/
def Op.effectAt (env : CloudInitEnv) (op : Op) (p : String) : Option (Option CcFile) :=
  match op with
  | .addKipFile content path permissions =>
    if p = path then some (some ⟨content, path, "root", permissions⟩) else none
  | .addItzoVersion version =>
    if version ≠ "" ∧ p = itzoVersionPath then
      some (some ⟨itzoVersion version, itzoVersionPath, "root", "0444"⟩)
    else none
  | .addItzoURL url =>
    if url ≠ "" ∧ p = itzoURLPath then some (some ⟨url, itzoURLPath, "root", "0444"⟩) else none
  | .addCellConfig cfg =>
    match cfg.entries.length, env.marshalCellConfig cfg with
    | 0, _ => none
    | _ + 1, .error _ => none
    | _ + 1, .ok buf =>
      if p = cellConfigPath then some (some ⟨buf, cellConfigPath, "root", "0444"⟩) else none
  | .resetInstanceData => some none

theorem get?_addKipFile (f : File) (content path permissions p : String) :
    (f.addKipFile content path permissions).kipFiles.get? p =
      if p = path then some ⟨content, path, "root", permissions⟩ else f.kipFiles.get? p :=
  GoMap.get?_set _ _ _ _

/-- One method, read at one path. -/
theorem get?_apply (env : CloudInitEnv) (f : File) (op : Op) (p : String) :
    (f.apply env op).kipFiles.get? p = (op.effectAt env p).getD (f.kipFiles.get? p) := by
  cases op with
  | addKipFile content path permissions =>
    by_cases h : p = path <;> simp [File.apply, Op.effectAt, get?_addKipFile, h]
  | addItzoVersion version =>
    by_cases hv : version = "" <;> by_cases h : p = itzoVersionPath <;>
      simp [File.apply, File.addItzoVersion, Op.effectAt, get?_addKipFile, hv, h]
  | addItzoURL url =>
    by_cases hu : url = "" <;> by_cases h : p = itzoURLPath <;>
      simp [File.apply, File.addItzoURL, Op.effectAt, get?_addKipFile, hu, h]
  | addCellConfig cfg =>
    simp only [File.apply, File.addCellConfig, Op.effectAt]
    rcases cfg.entries.length with _ | n <;> rcases env.marshalCellConfig cfg with err | buf <;>
      by_cases h : p = cellConfigPath <;> simp [get?_addKipFile, h]
  | resetInstanceData => simp [File.apply, File.resetInstanceData, Op.effectAt]

/-- Kip's files after any run of methods from any file: at every path, what
the last method that touched the path left there (nothing, after a reset),
else what the run started with. -/
theorem get?_foldl_apply (env : CloudInitEnv) (f : File) (ops : List Op) (p : String) :
    (ops.foldl (File.apply env) f).kipFiles.get? p =
      (GoMap.lastWrite (Op.effectAt env) ops p).getD (f.kipFiles.get? p) := by
  -- a file read at every path, as a present value per path
  have hrun := List.foldl_hom (fun g : File => fun q => some (g.kipFiles.get? q)) (File.apply env)
    (fun G op q => (op.effectAt env q).or (G q)) ops f fun g op => by
      funext q
      show (op.effectAt env q).or (some _) = some _
      rw [get?_apply]
      cases op.effectAt env q <;> rfl
  have hp := congrFun hrun p
  rw [GoMap.foldl_eq_lastWrite (fun _ _ _ => rfl)] at hp
  cases h : GoMap.lastWrite (Op.effectAt env) ops p <;> rw [h] at hp <;> exact (Option.some.inj hp).symm

/-! ## The itzo version -/

/-- The pattern read through its optional leading `v`. -/
theorem semverMatch_eq (s : String) :
    semverMatch s = if s.data.head? = some 'v' then semverCore s.data.tail else semverCore s.data := by
  unfold semverMatch
  split
  · next cs h => simp [h]
  · next h =>
    have : s.data.head? ≠ some 'v' := by
      cases hs : s.data with
      | nil => simp
      | cons c cs => rintro ⟨⟩; exact h cs hs
    simp [this]

theorem semverMatch_v_append {s : String} (h : s.data.head? ≠ some 'v') :
    semverMatch ("v" ++ s) = semverMatch s := by
  simp [semverMatch_eq, h]

/-- The test against `latest` changes nothing: `latest` is no semver
version. -/
theorem itzoVersion_eq (version : String) :
    itzoVersion version =
      if version.data.head? ≠ some 'v' ∧ semverMatch version then "v" ++ version else version := by
  by_cases hl : version = "latest"
  · subst hl; decide
  · simp [itzoVersion, hl]

/-- `AddItzoVersion(version)`, for a non-empty version, writes a file owned
by `root` at `ItzoVersionPath` whose content is the version, or the version
with a `v` put in front.  The content is a semver version exactly when the
argument is, and then starts with `v`; passing the content back to
`AddItzoVersion` writes the same file. -/
theorem addItzoVersion_spec (f : File) {version : String} (h : version ≠ "") :
    ∃ content, (f.addItzoVersion version).kipFiles.get? itzoVersionPath =
        some ⟨content, itzoVersionPath, "root", "0444"⟩ ∧
      (content = version ∨ content = "v" ++ version) ∧
      semverMatch content = semverMatch version ∧
      (semverMatch version → content.data.head? = some 'v') ∧
      f.addItzoVersion content = f.addItzoVersion version := by
  refine ⟨itzoVersion version, by simp [File.addItzoVersion, File.addKipFile, h], ?_⟩
  by_cases hv : version.data.head? ≠ some 'v' ∧ semverMatch version
  · have hne : "v" ++ version ≠ "" := fun he => by simpa using congrArg String.data he
    simp [itzoVersion_eq, hv, semverMatch_v_append hv.1, File.addItzoVersion, hne, h]
  · rw [itzoVersion_eq, if_neg hv]
    exact ⟨.inl rfl, rfl, fun hsem => not_not.mp fun hhead => hv ⟨hhead, hsem⟩, rfl⟩

/-- `AddItzoVersion("1.2.3")` writes `v1.2.3`. -/
theorem addItzoVersion_semver :
    ("1.2.3" : String) ≠ "" ∧ ∃ content,
      ((⟨⟨[]⟩, GoMap.empty⟩ : File).addItzoVersion "1.2.3").kipFiles.get? itzoVersionPath =
        some ⟨content, itzoVersionPath, "root", "0444"⟩ ∧
      (content = "1.2.3" ∨ content = "v" ++ "1.2.3") ∧
      semverMatch content = semverMatch "1.2.3" ∧
      (semverMatch "1.2.3" → content.data.head? = some 'v') ∧
      (⟨⟨[]⟩, GoMap.empty⟩ : File).addItzoVersion content =
        (⟨⟨[]⟩, GoMap.empty⟩ : File).addItzoVersion "1.2.3" :=
  ⟨by decide, addItzoVersion_spec _ (by decide)⟩

/-! ## `Contents` -/

/-- `Contents` succeeds exactly when the merged config marshals and the
header and the marshalled config together fit in `maxCloudInitSize`
bytes. -/
theorem contents_eq_ok_iff (env : CloudInitEnv) (f : File) (c : Bytes) :
    f.contents env = .ok c ↔ ∃ m, env.marshal ⟨f.mergedFiles env⟩ = .ok m ∧
      c = cloudInitHeader ++ m ∧ c.length ≤ maxCloudInitSize := by
  unfold File.contents
  cases env.marshal ⟨f.mergedFiles env⟩ with
  | error e => simp
  | ok m =>
    by_cases hlen : maxCloudInitSize < (cloudInitHeader ++ m).length
    · simp only [hlen, if_true, reduceCtorEq, false_iff]
      rintro ⟨m', hm, rfl, hle⟩
      cases hm
      omega
    · simp only [hlen, if_false, Except.ok.injEq]
      exact ⟨fun hc => ⟨m, rfl, hc.symm, hc ▸ Nat.le_of_not_lt hlen⟩,
        fun ⟨m', hm, hc, _⟩ => by cases hm; exact hc.symm⟩

/-- In a well-formed file, the merged `write_files` are the user's followed
by each of Kip's files once, at distinct paths, each the one the map holds
under its path. -/
theorem File.WellFormed.mergedFiles {env : CloudInitEnv} {f : File} (hf : f.WellFormed) :
    ∃ kip, f.mergedFiles env = f.userData.writeFiles ++ kip ∧
      kip.Perm (f.kipFiles.entries.map Prod.snd) ∧ (kip.map CcFile.path).Nodup ∧
      ∀ file ∈ kip, file.owner = "root" ∧ f.kipFiles.get? file.path = some file := by
  have hperm := env.rangeOrder_perm f.kipFiles
  have hpath : ∀ e ∈ f.kipFiles.entries, (CcFile.path ∘ Prod.snd) e = e.1 :=
    fun e he => (hf e.1 e.2 (GoMap.get?_of_mem_entries he)).1
  refine ⟨_, rfl, hperm.map _, ?_, fun file hfile => ?_⟩
  · rw [List.map_map, (hperm.map _).nodup_iff, List.map_congr_left hpath]
    exact f.kipFiles.nodup
  · obtain ⟨⟨k, file⟩, he, rfl⟩ := List.mem_map.mp hfile
    have he := hperm.subset he
    have hget := GoMap.get?_of_mem_entries he
    obtain ⟨hp, ho⟩ := hf k file hget
    exact ⟨ho, hp ▸ hget⟩

/-- The output of `Contents` for any file a program can hold: the header
and the marshalled config, at most `maxCloudInitSize` bytes, whose
`write_files` are the user's followed by each of Kip's files once, at
distinct paths and owned by `root`. -/
theorem contents_spec {env : CloudInitEnv} {f : File} (h : Reachable env f) :
    ∃ kip, kip.Perm (f.kipFiles.entries.map Prod.snd) ∧ (kip.map CcFile.path).Nodup ∧
      (∀ file ∈ kip, file.owner = "root" ∧ f.kipFiles.get? file.path = some file) ∧
      ∀ c, f.contents env = .ok c ↔ ∃ m, env.marshal ⟨f.userData.writeFiles ++ kip⟩ = .ok m ∧
        c = cloudInitHeader ++ m ∧ c.length ≤ maxCloudInitSize := by
  obtain ⟨kip, hmerged, hperm, hnodup, hfiles⟩ := @File.WellFormed.mergedFiles env f h.wellFormed
  exact ⟨kip, hperm, hnodup, hfiles, fun c => by rw [contents_eq_ok_iff, hmerged]⟩

/-- An environment that marshals every config to nothing and ranges over
a map in insertion order. -/
def plainEnv : CloudInitEnv :=
  ⟨fun _ => .ok ⟨[]⟩, fun _ => .ok [], fun _ => .ok "", id, fun _ => .refl _⟩

/-- The file after `New("")` and `AddItzoVersion("1.2.3")`. -/
theorem contents_spec_itzoVersion :
    Reachable plainEnv (File.apply plainEnv ⟨⟨[]⟩, GoMap.empty⟩ (.addItzoVersion "1.2.3")) ∧
    ∃ kip, kip.Perm ((File.apply plainEnv ⟨⟨[]⟩, GoMap.empty⟩
          (.addItzoVersion "1.2.3")).kipFiles.entries.map Prod.snd) ∧
      (kip.map CcFile.path).Nodup ∧
      (∀ file ∈ kip, file.owner = "root" ∧ (File.apply plainEnv ⟨⟨[]⟩, GoMap.empty⟩
          (.addItzoVersion "1.2.3")).kipFiles.get? file.path = some file) ∧
      ∀ c, (File.apply plainEnv ⟨⟨[]⟩, GoMap.empty⟩ (.addItzoVersion "1.2.3")).contents
          plainEnv = .ok c ↔
        ∃ m, plainEnv.marshal ⟨(File.apply plainEnv ⟨⟨[]⟩, GoMap.empty⟩
            (.addItzoVersion "1.2.3")).userData.writeFiles ++ kip⟩ = .ok m ∧
          c = cloudInitHeader ++ m ∧ c.length ≤ maxCloudInitSize :=
  have h := Reachable.step (@Reachable.new plainEnv "" _ rfl) (.addItzoVersion "1.2.3")
  ⟨h, contents_spec h⟩

end CloudInit

end Kip
