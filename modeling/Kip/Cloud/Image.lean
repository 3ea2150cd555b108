import Mathlib.Data.List.Sort
import Kip.Cloud.Time

/-!
# Kip.Cloud.Image

`FilterImages`, `SortImages` and `GetBestImage` (`pkg/server/cloud`): the
boot image for a request is the newest of the images whose name matches
it.  Images are ranked by the key `(version, timestamp)`, compared
lexicographically: the version is what `strconv.ParseUint(version, 10, 32)`
returns (its error ignored), the timestamp what `Timestamp` returns, or
the Unix epoch when that fails.

`sort.Slice` is not modelled by its algorithm (Go's pattern-defeating
quicksort, which is not stable) but by its contract, as a `SliceSorter`:
any permutation of the slice, sorted whenever `less` is a strict weak
order.  The comparator of `SortImages` is one, so every sorter the contract
admits returns an image of greatest key.

Unlike the timestamp, a version that fails to parse gets no fallback: it
ranks by the value `ParseUint` returns with its error, `0` after a syntax
error but `2^32 - 1` after a range error, so a version such as
`5000000000x` outranks every version that parses
(`getBestImage_ranks_range_error`).
-/

namespace Kip

/-- `less` is a strict weak order: the contract of `sort.Slice`
("`less(i, j)` and `less(j, k)` true imply `less(i, k)` true; both false
imply `less(i, k)` false"), with irreflexivity. -/
structure StrictWeakOrder {α : Type} (less : α → α → Bool) : Prop where
  irrefl : ∀ a, less a a = false
  trans : ∀ a b c, less a b = true → less b c = true → less a c = true
  negTrans : ∀ a b c, less a b = false → less b c = false → less a c = false

/-- `sort.Slice(x, less)`: a permutation of `x`, in which no element is
`less` than one before it whenever `less` is a strict weak order. -/
structure SliceSorter (α : Type) where
  sort : (α → α → Bool) → List α → List α
  perm : ∀ less l, (sort less l).Perm l
  sorted : ∀ less l, StrictWeakOrder less → (sort less l).Pairwise fun a b => less b a = false

/-- A sorter the contract admits: insertion sort on "not less". -/
def insertionSorter (α : Type) : SliceSorter α where
  sort less l := l.insertionSort fun a b => less b a = false
  perm _ l := List.perm_insertionSort _ l
  sorted less l h := by
    haveI : IsTotal α fun a b => less b a = false := ⟨fun a b => by
      cases hba : less b a
      · exact .inl rfl
      · cases hab : less a b
        · exact .inr rfl
        · simpa [h.irrefl a] using h.trans a b a hab hba⟩
    haveI : IsTrans α fun a b => less b a = false := ⟨fun a b c hab hbc => h.negTrans c b a hbc hab⟩
    exact List.sorted_insertionSort _ l

/-- `cloud.Image`. -/
structure Image where
  id : String
  name : String
  deriving DecidableEq, Repr

/-- `t := BootImageTags{}; t.Set(img.Name)`. -/
def Image.tags (img : Image) : BootImageTags := BootImageTags.empty.set img.name

/-- `FilterImages(images, tags)`. -/
def filterImages (images : List Image) (tags : BootImageTags) : List Image :=
  images.filter fun img => img.tags.matches tags

/-- The version key of `SortImages`: `strconv.ParseUint(bit.Version, 10, 32)`. -/
def Image.versionKey (img : Image) : Nat := (parseUint img.tags.version 32).1

/-- The timestamp key of `SortImages`: `bit.Timestamp()`, or `time.Unix(0, 0)`
when it fails. -/
def Image.dateKey (img : Image) : Int := img.tags.timestamp.getD 0

/-- The comparator of `SortImages`. -/
def imageLess (a b : Image) : Bool :=
  if a.versionKey ≠ b.versionKey then a.versionKey < b.versionKey else a.dateKey < b.dateKey

/-- `SortImages(images)`. -/
def sortImages (sorter : SliceSorter Image) (images : List Image) : List Image :=
  sorter.sort imageLess images

/-- `%+v` of a `BootImageTags`. -/
def BootImageTags.plusV (bit : BootImageTags) : String :=
  "\x7bCompany:" ++ bit.company ++ " Product:" ++ bit.product ++ " Version:" ++ bit.version ++
    " Date:" ++ bit.date ++ " Time:" ++ bit.time ++ "\x7d"

/-- `GetBestImage(images, tags)`: the last image after filtering and
sorting. -/
def getBestImage (sorter : SliceSorter Image) (images : List Image) (tags : BootImageTags) :
    Except String String :=
  match (sortImages sorter (filterImages images tags)).getLast? with
  | none => .error ("No image matching tags " ++ tags.plusV ++ " found")
  | some latest => .ok latest.id

/-! ## The ranking -/

/-- `b`'s key is at least `a`'s, lexicographically. -/
def KeyLE (a b : Image) : Prop :=
  a.versionKey < b.versionKey ∨ (a.versionKey = b.versionKey ∧ a.dateKey ≤ b.dateKey)

instance : DecidableRel KeyLE := fun _ _ => inferInstanceAs (Decidable (_ ∨ _))

/-- The comparator is the lexicographic order of the keys. -/
theorem imageLess_iff (a b : Image) :
    imageLess a b = true ↔
      a.versionKey < b.versionKey ∨ (a.versionKey = b.versionKey ∧ a.dateKey < b.dateKey) := by
  unfold imageLess
  split_ifs with h <;> simp [h]
  omega

theorem imageLess_eq_false_iff (a b : Image) : imageLess b a = false ↔ KeyLE a b := by
  rw [← Bool.not_eq_true, imageLess_iff, KeyLE]
  omega

/-- The comparator of `SortImages` is a strict weak order. -/
theorem strictWeakOrder_imageLess : StrictWeakOrder imageLess where
  irrefl a := by simp [imageLess]
  trans a b c := by simp only [imageLess_iff]; omega
  negTrans a b c := by simp only [← Bool.not_eq_true, imageLess_iff]; omega

/-- The last element of a list sorted so that no element is less than one
before it is not less than any element. -/
theorem not_less_getLast {α : Type} {less : α → α → Bool} (hirr : ∀ a, less a a = false)
    {l : List α} {x : α} (hs : l.Pairwise fun a b => less b a = false) (hx : l.getLast? = some x) :
    ∀ y ∈ l, less x y = false := by
  obtain ⟨ys, rfl⟩ := List.getLast?_eq_some_iff.mp hx
  intro y hy
  rcases List.mem_append.mp hy with hy | hy
  · exact (List.pairwise_append.mp hs).2.2 y hy x (List.mem_singleton_self x)
  · rw [List.mem_singleton.mp hy]; exact hirr x

/-- The images `GetBestImage` sorts are the matching ones. -/
theorem mem_sortImages_filterImages (sorter : SliceSorter Image) (images : List Image)
    (tags : BootImageTags) (x : Image) :
    x ∈ sortImages sorter (filterImages images tags) ↔ x ∈ images ∧ x.tags.matches tags = true := by
  rw [sortImages, (sorter.perm imageLess _).mem_iff, filterImages, List.mem_filter]

/-- The last of the sorted matches ranks at least every match. -/
theorem keyLE_getLast_sortImages {sorter : SliceSorter Image} {images : List Image}
    {tags : BootImageTags} {x : Image}
    (hl : (sortImages sorter (filterImages images tags)).getLast? = some x) {y : Image}
    (hy : y ∈ images) (hym : y.tags.matches tags = true) : KeyLE y x := by
  rw [← imageLess_eq_false_iff]
  exact not_less_getLast strictWeakOrder_imageLess.irrefl
    (sorter.sorted _ _ strictWeakOrder_imageLess) hl y
    ((mem_sortImages_filterImages sorter images tags y).mpr ⟨hy, hym⟩)

/-- With no image left after filtering, no image matches. -/
theorem not_matches_of_getLast_none {sorter : SliceSorter Image} {images : List Image}
    {tags : BootImageTags} (hl : (sortImages sorter (filterImages images tags)).getLast? = none) :
    ∀ img ∈ images, img.tags.matches tags = false := by
  rw [List.getLast?_eq_none_iff] at hl
  intro img himg
  have := mem_sortImages_filterImages sorter images tags img
  simpa [hl, himg] using this

/-- `GetBestImage` fails exactly when no image matches, and otherwise
returns the id of a matching image whose key `(version, timestamp)` is
greatest among the matching images. -/
theorem getBestImage_spec (sorter : SliceSorter Image) (images : List Image)
    (tags : BootImageTags) :
    ((∃ e, getBestImage sorter images tags = .error e) ↔
      ∀ img ∈ images, img.tags.matches tags = false) ∧
    ∀ id, getBestImage sorter images tags = .ok id →
      ∃ img ∈ images, img.id = id ∧ img.tags.matches tags = true ∧
        ∀ img' ∈ images, img'.tags.matches tags = true → KeyLE img' img := by
  unfold getBestImage
  cases hl : (sortImages sorter (filterImages images tags)).getLast? with
  | none => exact ⟨iff_of_true ⟨_, rfl⟩ (not_matches_of_getLast_none hl), fun _ h => nomatch h⟩
  | some x =>
    have hx := (mem_sortImages_filterImages sorter images tags x).mp (List.mem_of_getLast?_eq_some hl)
    refine ⟨iff_of_false (fun ⟨_, h⟩ => nomatch h) fun hnone => ?_, fun id h => ?_⟩
    · simp [hnone x hx.1] at hx
    · cases h
      exact ⟨x, hx.1, rfl, hx.2, fun y hy hym => keyLE_getLast_sortImages hl hy hym⟩

/-- When one matching image has a key greater than every other matching
image's, `GetBestImage` returns it, whatever sorter the contract admits. -/
theorem getBestImage_of_unique_max (sorter : SliceSorter Image) {images : List Image}
    {tags : BootImageTags} {img : Image} (hmem : img ∈ images) (hmatch : img.tags.matches tags)
    (hmax : ∀ img' ∈ images, img'.tags.matches tags → img' ≠ img → ¬ KeyLE img img') :
    getBestImage sorter images tags = .ok img.id := by
  unfold getBestImage
  cases hl : (sortImages sorter (filterImages images tags)).getLast? with
  | none => simp [not_matches_of_getLast_none hl img hmem] at hmatch
  | some x =>
    have hx := (mem_sortImages_filterImages sorter images tags x).mp (List.mem_of_getLast?_eq_some hl)
    by_cases hxi : x = img
    · rw [hxi]
    · exact absurd (keyLE_getLast_sortImages hl hmem hmatch) (hmax x hx.1 hx.2 hxi)

/-- Three `itzo` images: versions `1`, `2`, `2`, the last the newest. -/
def itzoImages : List Image :=
  [⟨"a", "kip-itzo-1-20240101-010000"⟩, ⟨"b", "kip-itzo-2-20230101-010000"⟩,
    ⟨"c", "kip-itzo-2-20240601-010000"⟩]

/-- The newest version-2 image is the only one of greatest key. -/
theorem getBestImage_of_unique_max_itzo :
    (⟨"c", "kip-itzo-2-20240601-010000"⟩ : Image) ∈ itzoImages ∧
      (⟨"c", "kip-itzo-2-20240601-010000"⟩ : Image).tags.matches ⟨"", "itzo", "", "", ""⟩ ∧
      (∀ img' ∈ itzoImages, img'.tags.matches ⟨"", "itzo", "", "", ""⟩ →
        img' ≠ ⟨"c", "kip-itzo-2-20240601-010000"⟩ →
        ¬ KeyLE ⟨"c", "kip-itzo-2-20240601-010000"⟩ img') ∧
      getBestImage (insertionSorter Image) itzoImages ⟨"", "itzo", "", "", ""⟩ = .ok "c" :=
  have hmem : (⟨"c", "kip-itzo-2-20240601-010000"⟩ : Image) ∈ itzoImages := by decide
  have hmatch : (⟨"c", "kip-itzo-2-20240601-010000"⟩ : Image).tags.matches
      ⟨"", "itzo", "", "", ""⟩ := by decide
  have hmax : ∀ img' ∈ itzoImages, img'.tags.matches ⟨"", "itzo", "", "", ""⟩ →
      img' ≠ ⟨"c", "kip-itzo-2-20240601-010000"⟩ →
      ¬ KeyLE ⟨"c", "kip-itzo-2-20240601-010000"⟩ img' := by decide
  ⟨hmem, hmatch, hmax, getBestImage_of_unique_max (insertionSorter Image) hmem hmatch hmax⟩

/-! ## A failed version parse -/

/-- `SortImages` logs `ParseUint`'s error and keeps its value.  The version
`5000000000x` fails to parse, with a range error since its digits pass
`2^32 - 1` before the `x`, yet it ranks as `2^32 - 1`: above the version
`7`, which parses, so `GetBestImage` returns the image whose version
failed. -/
theorem getBestImage_ranks_range_error :
    parseUint "5000000000x" 32 = (2 ^ 32 - 1, some .errRange) ∧
    parseUint "7" 32 = (7, none) ∧
    getBestImage (insertionSorter Image)
        [⟨"ami-bad", "kip-itzo-5000000000x-20200101-000000"⟩,
          ⟨"ami-good", "kip-itzo-7-20240101-000000"⟩] ⟨"", "itzo", "", "", ""⟩ = .ok "ami-bad" :=
  ⟨rfl, rfl, rfl⟩

end Kip
