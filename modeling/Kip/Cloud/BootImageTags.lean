import Kip.Strings

/-!
# Kip.Cloud.BootImageTags

`BootImageTags` (`pkg/server/cloud`): the five fields of a boot image name,
`company-product-version-date-time`.  `String` joins them with `-`; `Set`
splits a name on `-` and writes the first five pieces into the receiver,
leaving a field alone when the name has fewer pieces; `Matches` compares
the fields a request sets.

The round trips are exact, and their conditions are sharper than "all five
fields are set": `Set(b.String())` gives back `b` exactly when no field of
`b` holds a `-`, and `String()` after `Set(s)` on a fresh value gives back
`s` exactly when `s` holds four dashes.
-/

namespace Kip

/-- `cloud.BootImageTags`. -/
structure BootImageTags where
  company : String
  product : String
  version : String
  date : String
  time : String
  deriving DecidableEq, Repr

namespace BootImageTags

/-- The zero value `BootImageTags{}`. -/
def empty : BootImageTags := ⟨"", "", "", "", ""⟩

/-- The five fields, in the order of the name. -/
def fields (bit : BootImageTags) : List String :=
  [bit.company, bit.product, bit.version, bit.date, bit.time]

/-- `bit.String()`: `fmt.Sprintf("%s-%s-%s-%s-%s", ...)` of the fields. -/
def string (bit : BootImageTags) : String := Strings.join bit.fields '-'

/-- `bit.Set(s)`: `tags := strings.Split(s, "-")`, then field `i` is set to
`tags[i]` when `len(tags) > i`. -/
def set (bit : BootImageTags) (s : String) : BootImageTags :=
  let tags := Strings.split s '-'
  { company := tags.getD 0 bit.company
    product := tags.getD 1 bit.product
    version := tags.getD 2 bit.version
    date := tags.getD 3 bit.date
    time := tags.getD 4 bit.time }

/-- One test of `Matches`: a field the request leaves empty matches
anything, a set one must be equal. -/
def fieldMatches (field want : String) : Bool := want == "" || field == want

end BootImageTags

/-- `bit.Matches(input)`. -/
def BootImageTags.matches (bit input : BootImageTags) : Bool :=
  fieldMatches bit.company input.company && fieldMatches bit.product input.product &&
    fieldMatches bit.version input.version && fieldMatches bit.date input.date &&
    fieldMatches bit.time input.time

namespace BootImageTags

/-! ## `Set` -/

theorem getD_mem_or (l : List String) (i : Nat) (d : String) :
    l.getD i d ∈ l ∨ l.getD i d = d := by
  rw [List.getD_eq_getElem?_getD]
  cases h : l[i]? with
  | none => exact .inr rfl
  | some x => exact .inl (List.getElem?_mem h)

theorem getD_mem {l : List String} {i : Nat} (h : i < l.length) (d : String) :
    l.getD i d ∈ l := by
  rw [List.getD_eq_getElem?_getD, List.getElem?_eq_getElem h]
  exact List.getElem_mem h

theorem fields_set (bit : BootImageTags) (s : String) :
    (bit.set s).fields = [(Strings.split s '-').getD 0 bit.company,
      (Strings.split s '-').getD 1 bit.product, (Strings.split s '-').getD 2 bit.version,
      (Strings.split s '-').getD 3 bit.date, (Strings.split s '-').getD 4 bit.time] := rfl

/-- A name of five or more pieces sets every field to one of its pieces,
whatever the receiver held. -/
theorem mem_split_of_mem_fields_set {bit : BootImageTags} {s f : String}
    (h : 5 ≤ (Strings.split s '-').length) (hf : f ∈ (bit.set s).fields) :
    f ∈ Strings.split s '-' := by
  rw [fields_set] at hf
  simp only [List.mem_cons, List.mem_singleton, List.not_mem_nil, or_false] at hf
  rcases hf with rfl | rfl | rfl | rfl | rfl <;> exact getD_mem (by omega) _

/-- On a fresh value every field is a piece of the name or empty, so none
holds a `-`. -/
theorem dash_not_mem_fields_set_empty {s f : String} (hf : f ∈ (empty.set s).fields) :
    '-' ∉ f.data := by
  rw [fields_set] at hf
  simp only [empty, List.mem_cons, List.mem_singleton, List.not_mem_nil, or_false] at hf
  rcases hf with rfl | rfl | rfl | rfl | rfl <;>
  · rcases getD_mem_or (Strings.split s '-') _ "" with h | h
    · exact Strings.not_mem_of_mem_split h
    · rw [h]; simp

/-- A value whose fields are the five pieces of a name. -/
theorem set_eq_of_split {bit b : BootImageTags} {s : String}
    (h : Strings.split s '-' = b.fields) : bit.set s = b := by
  simp [set, h, fields]

/-! ## `String` -/

/-- `String()` writes at least the four separating dashes. -/
theorem four_le_count_string (b : BootImageTags) : 4 ≤ b.string.data.count '-' := by
  simp [string, fields, Strings.join, List.intercalate, List.count_append]
  omega

/-- `Set(b.String())` restores `b`, whatever the receiver, exactly when no
field of `b` holds a `-`. -/
theorem set_string_eq_iff (b r : BootImageTags) :
    r.set b.string = b ↔ ∀ f ∈ b.fields, '-' ∉ f.data := by
  constructor
  · intro h f hf
    have hlen : 5 ≤ (Strings.split b.string '-').length := by
      rw [Strings.length_split]; have := four_le_count_string b; omega
    rw [← h] at hf
    exact Strings.not_mem_of_mem_split (mem_split_of_mem_fields_set hlen hf)
  · intro h
    exact set_eq_of_split (Strings.split_join (by simp [fields]) h)

/-- On a fresh value, `Set(s)` then `String()` restores `s` exactly when `s`
holds four dashes. -/
theorem string_set_empty_eq_iff (s : String) : (empty.set s).string = s ↔ s.data.count '-' = 4 := by
  constructor
  · intro h
    have := @Strings.count_join (empty.set s).fields '-' (by simp [fields])
      (fun f hf => dash_not_mem_fields_set_empty hf)
    rw [← h]
    simpa [fields] using this
  · intro h
    have hlen : (Strings.split s '-').length = 5 := by rw [Strings.length_split, h]
    obtain ⟨t₀, t₁, t₂, t₃, t₄, ht⟩ :
        ∃ t₀ t₁ t₂ t₃ t₄, Strings.split s '-' = [t₀, t₁, t₂, t₃, t₄] := by
      match hs : Strings.split s '-', hlen with
      | [t₀, t₁, t₂, t₃, t₄], _ => exact ⟨t₀, t₁, t₂, t₃, t₄, rfl⟩
    have hset : (empty.set s).fields = Strings.split s '-' := by simp [fields_set, ht]
    rw [string, hset, Strings.join_split]

/-- The round trips of `String` and `Set`: `Set(b.String())` restores `b`,
whatever the receiver, exactly when no field of `b` holds a `-`; and on a
fresh value `Set(s)` then `String()` restores `s` exactly when `s` holds
four dashes. -/
theorem set_string_roundtrip :
    (∀ b r : BootImageTags, r.set b.string = b ↔ ∀ f ∈ b.fields, '-' ∉ f.data) ∧
    (∀ s : String, (empty.set s).string = s ↔ s.data.count '-' = 4) :=
  ⟨set_string_eq_iff, string_set_empty_eq_iff⟩

end BootImageTags

end Kip
