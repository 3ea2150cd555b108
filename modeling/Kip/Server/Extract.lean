import Mathlib.Data.List.AList
import Kip.Server.Package

/-!
# Kip.Server.Extract

What a package means: the cell agent extracts it in a directory, writing
each entry, in order, as a regular file at the location its name resolves
to.  The agent is not part of this repository; `unpack` is the extraction
a tar reader performs on regular-file entries, and the theorems here say
what the packages `makeDeployPackage` writes mean.

A directory tree is modelled by its regular files, by location; the
directories are the locations above them.  A file is not a directory, so
no file lies inside another (`FileTree.flat`), and a write that would put a
file inside a file, or a file over a directory, fails (`FileTree.write`).

Entries whose locations are free in the tree and not nested in one another
extract, and leave at each location the last entry written there
(`unpack_eq_lastWrite`).  A package of keys that keep no `..` after
`Clean`, none of whose cleaned paths is a prefix of another key's,
extracted over a tree with no file above or below their locations, leaves
each key's file at `ROOTFS/<cleaned key>` and changes no other file, in
whatever order it was written (`unpack_makeDeployPackage`).
-/

namespace Kip

/-- `a` lies strictly inside the directory `b`; a location lists its names
innermost first, as `Filepath.resolve` returns them. -/
def Inside (a b : List (List Char)) : Prop := b <:+ a ∧ a ≠ b

instance : DecidableRel Inside := fun _ _ => inferInstanceAs (Decidable (_ ∧ _))

theorem not_inside_self (a : List (List Char)) : ¬ Inside a a := fun h => h.2 rfl

/-- Directories under `ROOTFS` nest as the cleaned paths of their keys do. -/
theorem prefix_of_inside_rootfsDir {cwd : List (List Char)} {p q : String}
    (h : Inside (rootfsDir cwd p) (rootfsDir cwd q)) :
    Filepath.relClean q <+: Filepath.relClean p := by
  simpa [rootfsDir, List.reverse_append] using h.1.reverse

/-- A directory tree as extraction sees it: its regular files, by location.
No file lies inside another. -/
structure FileTree where
  files : AList fun _ : List (List Char) => PackageFile
  flat : ∀ a ∈ files.keys, ∀ b ∈ files.keys, ¬ Inside a b

namespace FileTree

/-- The tree with no file. -/
def empty : FileTree := ⟨∅, by simp [AList.keys]⟩

/-- The file at `loc`. -/
def get? (t : FileTree) (loc : List (List Char)) : Option PackageFile := t.files.lookup loc

@[simp] theorem get?_empty (loc : List (List Char)) : empty.get? loc = none := rfl

/-- `loc` can take a regular file: no file stands at a directory above it,
and no file lies below it. -/
def Free (t : FileTree) (loc : List (List Char)) : Prop :=
  ∀ b ∈ t.files.keys, ¬ Inside loc b ∧ ¬ Inside b loc

instance (t : FileTree) (loc : List (List Char)) : Decidable (t.Free loc) :=
  inferInstanceAs (Decidable (∀ b ∈ t.files.keys, _))

theorem mem_keys_insert {t : FileTree} {loc a : List (List Char)} {f : PackageFile}
    (h : a ∈ (t.files.insert loc f).keys) : a = loc ∨ a ∈ t.files.keys := by
  simpa [AList.mem_keys] using (AList.mem_insert _).mp (AList.mem_keys.mp h)

/-- A file written at a free location lies inside no other file. -/
theorem flat_insert {t : FileTree} {loc : List (List Char)} (h : t.Free loc) (f : PackageFile) :
    ∀ a ∈ (t.files.insert loc f).keys, ∀ b ∈ (t.files.insert loc f).keys, ¬ Inside a b := by
  intro a ha b hb
  rcases mem_keys_insert ha with ha | ha <;> rcases mem_keys_insert hb with hb | hb
  · rw [ha, hb]; exact not_inside_self _
  · rw [ha]; exact (h b hb).1
  · rw [hb]; exact (h a ha).2
  · exact t.flat a ha b hb

/-- Writing the regular file `f` at `loc`: it is created, or replaces the
file there; the write fails when a file stands where a directory is
needed, or when `loc` is a directory. -/
def write (t : FileTree) (loc : List (List Char)) (f : PackageFile) : Option FileTree :=
  if h : t.Free loc then some ⟨t.files.insert loc f, flat_insert h f⟩ else none

/-- A file cannot be written inside a file. -/
example : ((empty.write [['x']] ⟨[], 0o644⟩).bind
    fun t => t.write [['y'], ['x']] ⟨[], 0o644⟩).isNone = true := by decide

/-- A write at a free location succeeds, and reads back as an update. -/
theorem write_of_free {t : FileTree} {loc : List (List Char)} (h : t.Free loc) (f : PackageFile) :
    ∃ t', t.write loc f = some t' ∧ ∀ x, t'.get? x = if x = loc then some f else t.get? x := by
  refine ⟨_, dif_pos h, fun x => ?_⟩
  by_cases hx : x = loc
  · subst hx; simp [get?]
  · simp [get?, hx, AList.lookup_insert_ne hx]

/-- A location free before a write, and not nested with the location
written, stays free. -/
theorem free_of_write {t t' : FileTree} {loc loc' : List (List Char)} {f : PackageFile}
    (hw : t.write loc f = some t') (h : t.Free loc') (hout : ¬ Inside loc' loc)
    (hin : ¬ Inside loc loc') : t'.Free loc' := by
  unfold write at hw
  split_ifs at hw
  cases hw
  intro b hb
  rcases mem_keys_insert hb with rfl | hb
  exacts [⟨hout, hin⟩, h b hb]

end FileTree

/-- Where an entry is extracted in `cwd`. -/
def entryLoc (cwd : List (List Char)) (e : TarEntry) : List (List Char) :=
  Filepath.resolve cwd e.header.name

/-- The entries extracted in `cwd`, in order, over the tree `t`; `none` when
a write fails. -/
def unpack (cwd : List (List Char)) (t : FileTree) : List TarEntry → Option FileTree
  | [] => some t
  | e :: es => (t.write (entryLoc cwd e) ⟨e.data, e.header.mode⟩).bind fun t' => unpack cwd t' es

/-- What an entry writes at `loc` when extracted in `cwd`. -/
def entryAt (cwd : List (List Char)) (e : TarEntry) (loc : List (List Char)) : Option PackageFile :=
  if entryLoc cwd e = loc then some ⟨e.data, e.header.mode⟩ else none

/-- The entries can be extracted over `t`: each location is free in `t`, and
none lies inside another's. -/
def Extractable (cwd : List (List Char)) (t : FileTree) (entries : List TarEntry) : Prop :=
  ∀ e ∈ entries, t.Free (entryLoc cwd e) ∧ ∀ e' ∈ entries, ¬ Inside (entryLoc cwd e) (entryLoc cwd e')

/-- Extractable entries extract, and leave at each location the last entry
written there. -/
theorem unpack_eq_lastWrite {cwd : List (List Char)} {entries : List TarEntry} :
    ∀ {t : FileTree}, Extractable cwd t entries → ∃ t', unpack cwd t entries = some t' ∧
      ∀ x, t'.get? x = (GoMap.lastWrite (entryAt cwd) entries x).or (t.get? x) := by
  induction entries with
  | nil => exact fun {t} _ => ⟨t, rfl, fun _ => rfl⟩
  | cons e es ih =>
    intro t h
    have he := h e (List.mem_cons_self _ _)
    obtain ⟨t₁, hw, hget⟩ := FileTree.write_of_free he.1 ⟨e.data, e.header.mode⟩
    have h₁ : Extractable cwd t₁ es := fun e' he' =>
      have he'' := h e' (List.mem_cons_of_mem _ he')
      ⟨FileTree.free_of_write hw he''.1 (he''.2 e (List.mem_cons_self _ _))
        (he.2 e' (List.mem_cons_of_mem _ he')), fun e'' h'' => he''.2 e'' (List.mem_cons_of_mem _ h'')⟩
    obtain ⟨t', hu, hget'⟩ := ih h₁
    refine ⟨t', by simp [unpack, hw, hu], fun x => ?_⟩
    rw [hget', hget, GoMap.lastWrite_cons, Option.or_assoc, entryAt]
    by_cases hx : x = entryLoc cwd e
    · simp [hx]
    · simp [hx, Ne.symm hx]

/-- A package of keys that keep no `..` after `Clean`, none of whose cleaned
paths is a prefix of another key's, extracted in any directory over a tree
with no file above or below the keys' directories, succeeds: it leaves each
key's file at `ROOTFS/<cleaned key>` and changes no other file, whatever
order `range` wrote it in. -/
theorem unpack_makeDeployPackage {w : TarWriteHeader} {contents : GoMap PackageFile}
    {entries : List TarEntry} (h : makeDeployPackage w contents = .ok entries)
    (hsafe : ∀ p ∈ contents.keys, Filepath.dotDot ∉ Filepath.relClean p)
    (hsep : ∀ p ∈ contents.keys, ∀ q ∈ contents.keys,
      Filepath.relClean p <+: Filepath.relClean q → p = q)
    (cwd : List (List Char)) (t : FileTree) (hfree : ∀ p ∈ contents.keys, t.Free (rootfsDir cwd p)) :
    ∃ t', unpack cwd t entries = some t' ∧
      (∀ p ∈ contents.keys, t'.get? (rootfsDir cwd p) = contents.get? p) ∧
      ∀ loc, (∀ p ∈ contents.keys, rootfsDir cwd p ≠ loc) → t'.get? loc = t.get? loc := by
  obtain ⟨-, rfl⟩ := (writeEntries_eq_ok_iff w _ _).mp h
  have hkey : ∀ x ∈ contents.entries, x.1 ∈ contents.keys := fun x hx => List.mem_map_of_mem _ hx
  -- each entry is extracted at its key's directory
  have hloc : ∀ x ∈ contents.entries,
      entryLoc cwd ⟨packageHeader x.1 x.2, x.2.data⟩ = rootfsDir cwd x.1 := fun x hx => by
    rw [entryLoc, packageHeader_name, resolve_tarFilepath_eq_rootfsDir (hsafe _ (hkey x hx))]
  have hat : ∀ x ∈ contents.entries, ∀ loc,
      entryAt cwd ⟨packageHeader x.1 x.2, x.2.data⟩ loc =
        if rootfsDir cwd x.1 = loc then some x.2 else none := fun x hx loc => by
    rw [entryAt, hloc x hx]
    rfl
  have hext : Extractable cwd t (contents.entries.map fun e => ⟨packageHeader e.1 e.2, e.2.data⟩) := by
    intro e he
    obtain ⟨x, hx, rfl⟩ := List.mem_map.mp he
    refine ⟨hloc x hx ▸ hfree _ (hkey x hx), fun e' he' hin => ?_⟩
    obtain ⟨y, hy, rfl⟩ := List.mem_map.mp he'
    rw [hloc x hx, hloc y hy] at hin
    rw [hsep _ (hkey y hy) _ (hkey x hx) (prefix_of_inside_rootfsDir hin)] at hin
    exact not_inside_self _ hin
  obtain ⟨t', hu, hget⟩ := unpack_eq_lastWrite hext
  refine ⟨t', hu, fun p hp => ?_, fun loc hloc' => ?_⟩
  · obtain ⟨file, hfile⟩ := Option.isSome_iff_exists.mp ((GoMap.mem_keys_iff _ _).mp hp)
    have hx := GoMap.mem_entries_of_get? hfile
    rw [hget, GoMap.lastWrite_of_unique (List.mem_map_of_mem _ hx), hat _ hx, if_pos rfl, hfile]
    · rfl
    · rintro _ hmem hsome
      obtain ⟨y, hy, rfl⟩ := List.mem_map.mp hmem
      rw [hat y hy] at hsome
      split_ifs at hsome with hdir
      · obtain rfl := hsep _ (hkey y hy) p hp (rootfsDir_inj hdir ▸ List.prefix_refl _)
        rw [GoMap.get?_of_mem_entries hy] at hfile
        obtain rfl := Option.some.inj hfile
        rfl
      · cases hsome
  · rw [hget, (GoMap.lastWrite_eq_none_iff _ _ _).mpr, Option.none_or]
    intro _ hmem
    obtain ⟨y, hy, rfl⟩ := List.mem_map.mp hmem
    rw [hat y hy, if_neg (hloc' _ (hkey y hy))]

end Kip
