import Kip.GoMap
import Kip.Filepath.Meaning

/-!
# Kip.Server.Package

`makeDeployPackage` (`pkg/server/deploy_util.go`): a map `path ↦ (bytes,
mode)` becomes a gzip-compressed tar stream with one regular file per key,
owned by uid and gid 0, named `filepath.Join(".", "ROOTFS", path)`.

The stream is modelled by its list of entries (header and data) in the
order they are written; gzip and the tar block layout are left out.  The
only step that can fail is `tw.WriteHeader`, whose format checks belong to
the `archive/tar` library; `makeDeployPackage` takes it as a parameter and
every theorem here holds for any such check.  `goWriteHeader` is the check
Go's library makes on the headers this function builds, with the error
text it reports, which quotes the refused name as `strconv.Quote` does.

What the archive path of a key turns out to be is the subject of the second
half: when `Clean` keeps no `..` element of the key (the `KeyToPath`
contract, "may not contain the path element '..'"), the entry is
`ROOTFS/` followed by the cleaned key, and two such keys share an entry
name exactly when they clean to the same path.  The function itself checks
nothing: when `Clean` keeps a `..` of the key, the first one eats `ROOTFS`,
and the entry is under `ROOTFS` only when the key climbs back in through it
(`underRootfs_tarFilepath_iff`).  From every extraction directory, the entry
of a key names what the key names walked from `ROOTFS` there
(`resolve_tarFilepath`).
-/

namespace Kip

/-- Go `[]byte`. -/
abbrev Bytes := List UInt8

/-- `defaultVolumeFileMode = int32(0644)`. -/
def defaultVolumeFileMode : Int := 0o644

/-- `packageFile`: the content of one file of a package and its mode bits
(an `int32`). -/
structure PackageFile where
  data : Bytes
  mode : Int
  deriving DecidableEq, Repr

/-- `tar.TypeReg`, the type flag `'0'` of a regular file. -/
def typeReg : UInt8 := 48

/-- The fields of `tar.Header` that `makeDeployPackage` sets; the others
keep their zero values.  `Mode` is `int64(file.mode)`, which keeps the
value of the `int32`. -/
structure TarHeader where
  name : String
  mode : Int
  size : Nat
  typeflag : UInt8
  uid : Nat
  gid : Nat
  deriving DecidableEq, Repr

/-- One file of the archive: its header and the bytes written after it. -/
structure TarEntry where
  header : TarHeader
  data : Bytes
  deriving DecidableEq, Repr

/-- `tw.WriteHeader(hdr)`: `.ok` when the library can encode the header. -/
abbrev TarWriteHeader := TarHeader → Except String Unit

/-! ## Go's tar writer

`tw.WriteHeader(hdr)` asks `hdr.allowedFormats()` which formats can encode
the header, and reports a refusal as a `headerError`, whose text is
`archive/tar: cannot encode header: ` followed by the reason.  A name
holding a NUL byte is not ASCII to the writer, so it becomes a PAX record,
which then fails `validPAXRecord`; the reason quotes the record with `%q`,
which is `strconv.Quote`. -/

/-- `lowerhex[n]`, for `n < 16`. -/
def lowerhex (n : Nat) : Char := if n < 10 then Char.ofNat (48 + n) else Char.ofNat (87 + n)

/-- The `width` low hexadecimal digits of `n`, most significant first: the
loop `lowerhex[r>>uint(s)&0xF]` of `appendEscapedRune`. -/
def hexDigits (n : Nat) : Nat → List Char
  | 0 => []
  | w + 1 => lowerhex (n >>> (4 * w) &&& 0xF) :: hexDigits n w

/-- `strconv.IsPrint(r)`: decided in the code on Latin-1, and above it by
Go's tables of printable runes (Unicode letters, marks, numbers,
punctuation and symbols), which the model takes as `printable`. -/
def isPrint (printable : Char → Bool) (r : Char) : Bool :=
  if r.toNat ≤ 0xFF then
    (0x20 ≤ r.toNat && r.toNat ≤ 0x7E) || (0xA1 ≤ r.toNat && r.toNat != 0xAD)
  else printable r

/-- `appendEscapedRune(buf, r, '"', false, false)`: the text `%q` writes for
one rune (`\x22` is the double quote, `\x5c` the backslash).  Every Lean
character is a valid rune, so the branch for invalid runes is left out. -/
def escapeRune (printable : Char → Bool) (r : Char) : List Char :=
  if r = '\x22' ∨ r = '\x5c' then ['\x5c', r]
  else if isPrint printable r then [r]
  else if r = '\x07' then ['\x5c', 'a']
  else if r = '\x08' then ['\x5c', 'b']
  else if r = '\x0c' then ['\x5c', 'f']
  else if r = '\n' then ['\x5c', 'n']
  else if r = '\r' then ['\x5c', 'r']
  else if r = '\t' then ['\x5c', 't']
  else if r = '\x0b' then ['\x5c', 'v']
  else if r.toNat < 0x20 ∨ r.toNat = 0x7F then '\x5c' :: 'x' :: hexDigits r.toNat 2
  else if r.toNat < 0x10000 then '\x5c' :: 'u' :: hexDigits r.toNat 4
  else '\x5c' :: 'U' :: hexDigits r.toNat 8

/-- `strconv.Quote(s)`. -/
def quote (printable : Char → Bool) (s : String) : String :=
  ⟨'\x22' :: s.data.flatMap (escapeRune printable) ++ ['\x22']⟩

/-- `headerError{reason}.Error()`. -/
def headerError (reason : String) : String := "archive/tar: cannot encode header: " ++ reason

/-- `tw.WriteHeader` on a header of the shape built here (regular file, uid
and gid 0, zero times): a regular file's name may not end in `/`, and a
name holding a NUL byte is an invalid PAX record.  Any mode or size fits
the GNU format, and a long or non-ASCII name without NUL fits PAX, so
nothing else fails. -/
def goWriteHeader (printable : Char → Bool) (hdr : TarHeader) : Except String Unit :=
  if hdr.typeflag = typeReg ∧ hdr.name.data.getLast? = some '/' then
    .error (headerError "filename may not have trailing slash")
  else if '\x00' ∈ hdr.name.data then
    .error (headerError ("invalid PAX record: " ++ quote printable ("path = " ++ hdr.name)))
  else .ok ()

/-- A NUL byte is written `\x00`. -/
example : quote (fun _ => true) "a\x00b" = "\x22a\x5cx00b\x22" := by decide

/-- `filepath.Join(".", "ROOTFS", path)`, the archive path of a key. -/
def tarFilepath (path : String) : String := Filepath.join [".", "ROOTFS", path]

/-- The header written for `path ↦ file`. -/
def packageHeader (path : String) (file : PackageFile) : TarHeader where
  name := tarFilepath path
  mode := file.mode
  size := file.data.length
  typeflag := typeReg
  uid := 0
  gid := 0

@[simp] theorem packageHeader_name (path : String) (file : PackageFile) :
    (packageHeader path file).name = tarFilepath path := by
  rw [packageHeader]

/-- Go's tar writer on the header of a key: an archive path never ends in
`/`, so the header is refused only for a NUL byte in the name. -/
theorem goWriteHeader_packageHeader (printable : Char → Bool) (path : String) (file : PackageFile) :
    goWriteHeader printable (packageHeader path file) =
      if '\x00' ∈ (tarFilepath path).data then
        .error (headerError ("invalid PAX record: " ++ quote printable ("path = " ++ tarFilepath path)))
      else .ok () := by
  have hslash := Filepath.getLast?_join_dot_ne_slash "ROOTFS" path
  rw [goWriteHeader, packageHeader_name, if_neg fun h => hslash h.2]

/-- The loop of `makeDeployPackage` over the entries in `range` order:
write the header, then the data. -/
def writeEntries (writeHeader : TarWriteHeader) :
    List (String × PackageFile) → Except String (List TarEntry)
  | [] => .ok []
  | (path, file) :: rest => do
    writeHeader (packageHeader path file)
    let tail ← writeEntries writeHeader rest
    pure (⟨packageHeader path file, file.data⟩ :: tail)

/-- `makeDeployPackage(contents)`. -/
def makeDeployPackage (writeHeader : TarWriteHeader) (contents : GoMap PackageFile) :
    Except String (List TarEntry) :=
  writeEntries writeHeader contents.entries

/-! ## The entries written -/

/-- `writeEntries` succeeds exactly when every header is accepted, and then
writes one entry per map entry, in order. -/
theorem writeEntries_eq_ok_iff (w : TarWriteHeader) (es : List (String × PackageFile))
    (out : List TarEntry) :
    writeEntries w es = .ok out ↔
      (∀ e ∈ es, w (packageHeader e.1 e.2) = .ok ()) ∧
        out = es.map fun e => ⟨packageHeader e.1 e.2, e.2.data⟩ := by
  induction es generalizing out with
  | nil =>
    simp only [writeEntries, Except.ok.injEq, List.not_mem_nil, false_implies, implies_true,
      List.map_nil, true_and, eq_comm]
  | cons e es ih =>
    obtain ⟨path, file⟩ := e
    simp only [List.forall_mem_cons, List.map_cons]
    cases hw : w (packageHeader path file) with
    | error err =>
      simp only [writeEntries, hw, bind, Except.bind, reduceCtorEq, false_and, false_iff,
        not_false_eq_true]
    | ok u =>
      cases hr : writeEntries w es with
      | error err =>
        have hbad : ¬ ∀ e ∈ es, w (packageHeader e.1 e.2) = .ok () :=
          fun hall => nomatch hr.symm.trans ((ih _).mpr ⟨hall, rfl⟩)
        simp only [writeEntries, hw, hr, bind, Except.bind, reduceCtorEq, false_iff]
        exact fun h => hbad h.1.2
      | ok tail =>
        obtain ⟨hall, rfl⟩ := (ih tail).mp hr
        cases u
        simp only [writeEntries, hw, hr, bind, Except.bind, pure, Except.pure, Except.ok.injEq]
        exact ⟨fun h => ⟨⟨trivial, hall⟩, h.symm⟩, fun h => h.2.symm⟩

/-- A failed `writeEntries` failed at the first header the writer refused,
with its error. -/
theorem writeEntries_eq_error {w : TarWriteHeader} {es : List (String × PackageFile)} {e : String}
    (h : writeEntries w es = .error e) : ∃ pre x post, es = pre ++ x :: post ∧
      (∀ y ∈ pre, w (packageHeader y.1 y.2) = .ok ()) ∧ w (packageHeader x.1 x.2) = .error e := by
  induction es with
  | nil => cases h
  | cons x es ih =>
    obtain ⟨path, file⟩ := x
    cases hw : w (packageHeader path file) with
    | error e' =>
      simp only [writeEntries, hw, bind, Except.bind, Except.error.injEq] at h
      exact ⟨[], _, es, rfl, List.forall_mem_nil _, h ▸ hw⟩
    | ok u =>
      cases hr : writeEntries w es with
      | error e' =>
        simp only [writeEntries, hw, hr, bind, Except.bind, Except.error.injEq] at h
        obtain ⟨pre, y, post, rfl, hpre, hy⟩ := ih (h ▸ hr)
        exact ⟨(path, file) :: pre, y, post, rfl, List.forall_mem_cons.mpr ⟨hw, hpre⟩, hy⟩
      | ok tail => simp [writeEntries, hw, hr, bind, Except.bind, pure, Except.pure] at h

/-- The package of the empty map is the empty archive. -/
@[simp] theorem makeDeployPackage_empty (w : TarWriteHeader) :
    makeDeployPackage w GoMap.empty = .ok [] := rfl

/-! ## Entry names -/

/-- The layout the agent expects of an entry name: `ROOTFS/` (or
`./ROOTFS/`) followed by a non-empty relative path none of whose elements
is `..`. -/
def UnderRootfs (name : String) : Prop :=
  ∃ r : String, (name = "ROOTFS/" ++ r ∨ name = "./ROOTFS/" ++ r) ∧ r ≠ "" ∧
    r.data.head? ≠ some '/' ∧ Filepath.dotDot ∉ r.data.splitOn '/'

/-- A key whose cleaned elements keep no `..` is archived under `ROOTFS`,
at its cleaned path. -/
theorem tarFilepath_of_rel {p : String} (hp : Filepath.dotDot ∉ Filepath.relClean p) :
    tarFilepath p = ⟨['/'].intercalate ("ROOTFS".data :: Filepath.relClean p)⟩ :=
  Filepath.join_dot_dir (by decide) (by decide) (by decide) (by decide) hp

/-- A key whose cleaned elements keep a `..` starts with it, and that `..`
eats `ROOTFS`: the key is archived at the cleaned path of the rest. -/
theorem tarFilepath_of_dotDot {p : String} (hp : Filepath.dotDot ∈ Filepath.relClean p) :
    ∃ rest, Filepath.relClean p = Filepath.dotDot :: rest ∧
      tarFilepath p = if ['/'].intercalate rest = [] then "." else ⟨['/'].intercalate rest⟩ :=
  Filepath.join_dot_dir_of_dotDot (by decide) (by decide) (by decide) (by decide) hp

/-- The cleaned path of a key, joined back with `/`. -/
def cleanedKey (p : String) : String := ⟨['/'].intercalate (Filepath.relClean p)⟩

/-- For a relative key that does not clean to `.`, this is
`filepath.Clean(key)`. -/
theorem cleanedKey_eq_clean {p : String} (hrel : p.data.head? ≠ some '/')
    (hne : Filepath.relClean p ≠ []) : cleanedKey p = Filepath.clean p := by
  obtain ⟨e, es, hes⟩ := List.exists_cons_of_ne_nil hne
  have he := (@Filepath.realName_of_mem_relClean p e (by simp [hes])).1
  have hout : ['/'].intercalate (Filepath.cleanElems false p) ≠ [] := by
    rw [← Filepath.relClean, hes]; exact Filepath.intercalate_cons_ne_nil he es
  simp only [Filepath.clean, if_neg hrel, if_neg hout, cleanedKey, Filepath.relClean]

theorem tarFilepath_eq_rootfs {p : String} (hne : Filepath.relClean p ≠ [])
    (hp : Filepath.dotDot ∉ Filepath.relClean p) : tarFilepath p = "ROOTFS/" ++ cleanedKey p := by
  rw [tarFilepath_of_rel hp, Filepath.intercalate_cons_of_ne_nil _ hne]
  rfl

/-- A name that `Clean` splits into the real elements `xs` and that reads as
`pre/rest` starts with the element `pre`. -/
theorem eq_cons_splitOn_of_intercalate {xs : List (List Char)}
    (hxs : ∀ e ∈ xs, Filepath.RealName e) {pre rest : List Char} (hpre : '/' ∉ pre)
    (h : ['/'].intercalate xs = pre ++ '/' :: rest) : xs = pre :: rest.splitOn '/' := by
  have hne : xs ≠ [] := by rintro rfl; simp [List.intercalate] at h
  have hsplit := congrArg (List.splitOn '/') h
  rwa [List.splitOn_intercalate _ _ (fun e he => (hxs e he).2.2) hne, List.splitOn,
    List.splitOnP_first (· == '/') pre (fun x hx h => hpre (beq_iff_eq.mp h ▸ hx)) '/' rfl]
    at hsplit

/-- A name made of real elements has the layout the agent expects exactly
when its first element is `ROOTFS` and elements follow, none of them `..`. -/
theorem underRootfs_intercalate_iff {xs : List (List Char)} (hxs : ∀ e ∈ xs, Filepath.RealName e) :
    UnderRootfs ⟨['/'].intercalate xs⟩ ↔
      ∃ rest, xs = "ROOTFS".data :: rest ∧ rest ≠ [] ∧ Filepath.dotDot ∉ rest := by
  constructor
  · rintro ⟨r, hname | hname, -, -, hdd⟩
    · exact ⟨_, eq_cons_splitOn_of_intercalate hxs (by decide) (congrArg String.data hname),
        List.splitOnP_ne_nil _ _, hdd⟩
    · have hdot := @eq_cons_splitOn_of_intercalate _ hxs ['.'] _ (by decide)
        (congrArg String.data hname)
      exact absurd rfl (hxs _ (hdot ▸ List.mem_cons_self _ _)).2.1
  · rintro ⟨rest, rfl, hne, hdd⟩
    have hreal := fun e (he : e ∈ rest) => hxs e (List.mem_cons_of_mem _ he)
    obtain ⟨x, xs, rfl⟩ := List.exists_cons_of_ne_nil hne
    have hx := hreal x (List.mem_cons_self _ _)
    refine ⟨⟨['/'].intercalate (x :: xs)⟩, .inl ?_, ?_, ?_, ?_⟩
    · rw [Filepath.intercalate_cons_of_ne_nil _ hne]
      rfl
    · exact fun h => Filepath.intercalate_cons_ne_nil hx.1 xs (congrArg String.data h)
    · rw [Filepath.head?_intercalate_cons hx.1]
      exact fun h => hx.2.2 (List.mem_of_mem_head? h)
    · rwa [List.splitOn_intercalate _ _ (fun l hl => (hreal l hl).2.2) hne]

/-- The entry of such a key has the layout the agent expects. -/
theorem underRootfs_tarFilepath {p : String} (hne : Filepath.relClean p ≠ [])
    (hp : Filepath.dotDot ∉ Filepath.relClean p) : UnderRootfs (tarFilepath p) := by
  have hreal : ∀ e ∈ "ROOTFS".data :: Filepath.relClean p, Filepath.RealName e := by
    simpa using ⟨by decide, fun e => Filepath.realName_of_mem_relClean⟩
  rw [tarFilepath_of_rel hp]
  exact (underRootfs_intercalate_iff hreal).mpr ⟨_, rfl, hne, hp⟩

/-- Two such keys share an entry name exactly when they clean to the same
path. -/
theorem tarFilepath_inj {p q : String} (hp : Filepath.dotDot ∉ Filepath.relClean p)
    (hq : Filepath.dotDot ∉ Filepath.relClean q) :
    tarFilepath p = tarFilepath q ↔ Filepath.relClean p = Filepath.relClean q := by
  refine ⟨fun h => ?_, fun h => by rw [tarFilepath_of_rel hp, tarFilepath_of_rel hq, h]⟩
  have hsplit : ∀ r : String, Filepath.dotDot ∉ Filepath.relClean r →
      (tarFilepath r).data.splitOn '/' = "ROOTFS".data :: Filepath.relClean r := by
    intro r hr
    rw [tarFilepath_of_rel hr]
    refine List.splitOn_intercalate _ _ (fun l hl => ?_) (List.cons_ne_nil _ _)
    rcases List.mem_cons.mp hl with rfl | hl
    · decide
    · exact (Filepath.realName_of_mem_relClean hl).2.2
  have := hsplit p hp
  rw [h, hsplit q hq] at this
  exact (List.cons.inj this).2.symm

/-- The keys archived under `ROOTFS` are exactly those whose cleaned
elements are non-empty and keep no `..`, and those that climb out of
`ROOTFS` with one `..` and come back in through it.  A key whose cleaned
elements keep a `..` starts with it, and that `..` eats `ROOTFS`: the key
is archived at the cleaned path of the rest, `.` when nothing is left. -/
theorem underRootfs_tarFilepath_iff (p : String) :
    (UnderRootfs (tarFilepath p) ↔
      (Filepath.relClean p ≠ [] ∧ Filepath.dotDot ∉ Filepath.relClean p) ∨
        ∃ rest, Filepath.relClean p = Filepath.dotDot :: "ROOTFS".data :: rest ∧ rest ≠ [] ∧
          Filepath.dotDot ∉ rest) ∧
    (Filepath.dotDot ∈ Filepath.relClean p → ∃ rest, Filepath.relClean p = Filepath.dotDot :: rest ∧
      tarFilepath p = if ['/'].intercalate rest = [] then "." else ⟨['/'].intercalate rest⟩) := by
  refine ⟨?_, tarFilepath_of_dotDot⟩
  have hreal := fun e (he : e ∈ Filepath.relClean p) => Filepath.realName_of_mem_relClean he
  by_cases hp : Filepath.dotDot ∈ Filepath.relClean p
  · obtain ⟨rest₀, hrc, hname⟩ := tarFilepath_of_dotDot hp
    have hdot : ¬ UnderRootfs "." := by
      rintro ⟨r, h | h, -⟩ <;> simpa using congrArg (fun s => s.data.take 2) h
    rw [hname, or_iff_right (fun h => h.2 hp), hrc]
    simp only [List.cons.injEq, true_and]
    split_ifs with h
    · refine iff_of_false hdot ?_
      rintro ⟨rest, rfl, -⟩
      exact Filepath.intercalate_cons_ne_nil (by decide) rest h
    · exact underRootfs_intercalate_iff fun e he => hreal e (by simp [hrc, he])
  · have hreal' : ∀ e ∈ "ROOTFS".data :: Filepath.relClean p, Filepath.RealName e := by
      simpa using ⟨by decide, hreal⟩
    rw [tarFilepath_of_rel hp, underRootfs_intercalate_iff hreal']
    constructor
    · rintro ⟨rest, h, hne, -⟩
      exact .inl ⟨(List.cons.inj h).2 ▸ hne, hp⟩
    · rintro (⟨hne, -⟩ | ⟨rest, h, -⟩)
      · exact ⟨_, rfl, hne, hp⟩
      · exact absurd (h ▸ List.mem_cons_self _ _) hp

/-- The key `../ROOTFS/x` climbs out of `ROOTFS` and back in. -/
example : tarFilepath "../ROOTFS/x" = "ROOTFS/x" := by decide

/-! ## Where an entry is extracted -/

/-- The directory `ROOTFS/<cleaned key>` inside `cwd`. -/
def rootfsDir (cwd : List (List Char)) (p : String) : List (List Char) :=
  (Filepath.relClean p).reverse ++ "ROOTFS".data :: cwd

/-- Keys share a directory under `ROOTFS` exactly when they clean alike. -/
theorem rootfsDir_inj {cwd : List (List Char)} {p q : String}
    (h : rootfsDir cwd p = rootfsDir cwd q) : Filepath.relClean p = Filepath.relClean q :=
  List.reverse_inj.mp (List.append_cancel_right h)

/-- The entry of a key names what the key names walked from `ROOTFS`. -/
theorem resolve_tarFilepath_eq_walk (p : String) (cwd : List (List Char)) :
    Filepath.resolve cwd (tarFilepath p) = Filepath.walk ("ROOTFS".data :: cwd) (Filepath.elems p) :=
  Filepath.resolve_join_dot_dir (by decide) (by decide) (by decide) (by decide) cwd

/-- The entry of a key whose cleaned elements keep no `..` names
`ROOTFS/<cleaned key>`. -/
theorem resolve_tarFilepath_eq_rootfsDir {p : String} (hp : Filepath.dotDot ∉ Filepath.relClean p)
    (cwd : List (List Char)) : Filepath.resolve cwd (tarFilepath p) = rootfsDir cwd p := by
  rw [resolve_tarFilepath_eq_walk, ← Filepath.walk_cleanElems false p nofun]
  exact Filepath.walk_of_realNames (fun x hx => ⟨Filepath.realName_of_mem_relClean hx,
    fun h => hp (h ▸ hx)⟩) _

/-- From every extraction directory, the entry of a key names what the key
names walked from `ROOTFS` there; for a key whose cleaned elements are
non-empty and keep no `..`, that is strictly inside `ROOTFS`, at those
elements. -/
theorem resolve_tarFilepath (p : String) (cwd : List (List Char)) :
    Filepath.resolve cwd (tarFilepath p) = Filepath.walk ("ROOTFS".data :: cwd) (Filepath.elems p) ∧
      (Filepath.relClean p ≠ [] → Filepath.dotDot ∉ Filepath.relClean p →
        Filepath.resolve cwd (tarFilepath p) = (Filepath.relClean p).reverse ++ "ROOTFS".data :: cwd) :=
  ⟨resolve_tarFilepath_eq_walk p cwd, fun _ hp => resolve_tarFilepath_eq_rootfsDir hp cwd⟩

/-! ## The archive as a whole -/

/-- What a successful `makeDeployPackage` produces: one entry per map entry,
in `range` order and no other, each a regular file owned by uid and gid 0
carrying the key's mode, size and data under `filepath.Join(".", "ROOTFS",
key)`; every key whose cleaned path is non-empty and keeps no `..` is
archived as `ROOTFS/` followed by that path, under `UnderRootfs`; and two
such keys share an entry name exactly when they clean to the same path. -/
def PackageLayout (contents : GoMap PackageFile) (entries : List TarEntry) : Prop :=
  entries = contents.entries.map (fun e => ⟨packageHeader e.1 e.2, e.2.data⟩) ∧
  (∀ p ∈ contents.keys, Filepath.relClean p ≠ [] → Filepath.dotDot ∉ Filepath.relClean p →
    tarFilepath p = "ROOTFS/" ++ cleanedKey p ∧ UnderRootfs (tarFilepath p)) ∧
  (∀ p ∈ contents.keys, ∀ q ∈ contents.keys, Filepath.dotDot ∉ Filepath.relClean p →
    Filepath.dotDot ∉ Filepath.relClean q →
    (tarFilepath p = tarFilepath q ↔ Filepath.relClean p = Filepath.relClean q))

theorem makeDeployPackage_layout {w : TarWriteHeader} {contents : GoMap PackageFile}
    {entries : List TarEntry} (h : makeDeployPackage w contents = .ok entries) :
    PackageLayout contents entries :=
  ⟨((writeEntries_eq_ok_iff w _ _).mp h).2,
    fun _ _ hne hp => ⟨tarFilepath_eq_rootfs hne hp, underRootfs_tarFilepath hne hp⟩,
    fun _ _ _ _ hp hq => tarFilepath_inj hp hq⟩

theorem makeDeployPackage_layout_resolvconf :
    makeDeployPackage (goWriteHeader fun _ => true)
        ⟨[("/etc/resolv.conf", ⟨[], 0o644⟩), ("x/y", ⟨[1, 2], 0o600⟩)], by decide⟩ =
      .ok [⟨⟨"ROOTFS/etc/resolv.conf", 0o644, 0, typeReg, 0, 0⟩, []⟩,
        ⟨⟨"ROOTFS/x/y", 0o600, 2, typeReg, 0, 0⟩, [1, 2]⟩] ∧
    PackageLayout ⟨[("/etc/resolv.conf", ⟨[], 0o644⟩), ("x/y", ⟨[1, 2], 0o600⟩)], by decide⟩
      [⟨⟨"ROOTFS/etc/resolv.conf", 0o644, 0, typeReg, 0, 0⟩, []⟩,
        ⟨⟨"ROOTFS/x/y", 0o600, 2, typeReg, 0, 0⟩, [1, 2]⟩] :=
  ⟨rfl, @makeDeployPackage_layout (goWriteHeader fun _ => true) _ _ rfl⟩

/-- Keys are archived unchecked: `../../etc/passwd` names the entry
`../etc/passwd`, outside `ROOTFS`, and the keys `a` and `a/` name the same
entry. -/
theorem makeDeployPackage_escapes_rootfs :
    ∃ entries, makeDeployPackage (goWriteHeader fun _ => true)
        ⟨[("../../etc/passwd", ⟨[], 0o644⟩), ("a", ⟨[], 0o644⟩), ("a/", ⟨[], 0o644⟩)],
          by decide⟩ = .ok entries ∧
      entries.map (·.header.name) = ["../etc/passwd", "ROOTFS/a", "ROOTFS/a"] ∧
      ¬ UnderRootfs "../etc/passwd" := by
  refine ⟨_, rfl, by decide, ?_⟩
  rintro ⟨r, h | h, -⟩ <;> simpa using congrArg (fun s => s.data.take 2) h

/-- With Go's tar writer no entry name ends in `/`, and `makeDeployPackage`
fails exactly when the archive path of a key holds a NUL byte; it then
fails at the first such key in `range` order, with the writer's text
naming the key's archive path as an invalid PAX record. -/
theorem makeDeployPackage_goWriteHeader (printable : Char → Bool) (contents : GoMap PackageFile) :
    (∀ p ∈ contents.keys, (tarFilepath p).data.getLast? ≠ some '/') ∧
    ((∃ entries, makeDeployPackage (goWriteHeader printable) contents = .ok entries) ↔
      ∀ p ∈ contents.keys, '\x00' ∉ (tarFilepath p).data) ∧
    ∀ e, makeDeployPackage (goWriteHeader printable) contents = .error e →
      ∃ pre p file post, contents.entries = pre ++ (p, file) :: post ∧
        (∀ q ∈ pre, '\x00' ∉ (tarFilepath q.1).data) ∧ '\x00' ∈ (tarFilepath p).data ∧
        e = "archive/tar: cannot encode header: invalid PAX record: " ++
          quote printable ("path = " ++ tarFilepath p) := by
  have hok : ∀ x : String × PackageFile,
      goWriteHeader printable (packageHeader x.1 x.2) = .ok () ↔ '\x00' ∉ (tarFilepath x.1).data := by
    intro x
    rw [goWriteHeader_packageHeader]
    split_ifs with h <;> simp [h]
  refine ⟨fun p _ => Filepath.getLast?_join_dot_ne_slash _ _, ⟨?_, fun hall => ?_⟩, fun e h => ?_⟩
  · rintro ⟨entries, h⟩ p hp
    obtain ⟨x, hx, rfl⟩ := List.mem_map.mp hp
    exact (hok x).mp (((writeEntries_eq_ok_iff _ _ _).mp h).1 x hx)
  · exact ⟨_, (writeEntries_eq_ok_iff _ _ _).mpr
      ⟨fun x hx => (hok x).mpr (hall x.1 (List.mem_map_of_mem _ hx)), rfl⟩⟩
  · obtain ⟨pre, ⟨p, file⟩, post, hes, hpre, hx⟩ := writeEntries_eq_error h
    rw [goWriteHeader_packageHeader] at hx
    split_ifs at hx with hnul
    exact ⟨pre, p, file, post, hes, fun q hq => (hok q).mp (hpre q hq), hnul,
      (Except.error.inj hx).symm⟩

/-- A key holding a NUL byte fails the whole package. -/
example : makeDeployPackage (goWriteHeader fun _ => true)
    ⟨[("ok", ⟨[], 0o644⟩), ("a\x00b", ⟨[], 0o644⟩)], by decide⟩ =
    .error "archive/tar: cannot encode header: invalid PAX record: \x22path = ROOTFS/a\x5cx00b\x22" :=
  rfl

end Kip
