import Mathlib.Data.List.Nodup

/-!
# Kip.GoMap

Go's `map[string]V`, as the server code uses it: `make`, the comma-ok read
`v, ok := m[k]`, the assignment `m[k] = v`, and `range`.

A map is an association list whose keys are distinct, carried as a field so
that no map with a repeated key can be built.  Go leaves the order of
`range` unspecified (the runtime randomises it); here the order of
`entries` is the order one `range` visits.  A theorem stated for every
`GoMap` therefore holds whatever order the runtime picks, and two values
whose entries are permutations of each other are the same Go map.
-/

namespace Kip

/-- A Go `map[string]α`: its entries in one iteration order, keys distinct. -/
structure GoMap (α : Type) where
  entries : List (String × α)
  nodup : (entries.map Prod.fst).Nodup

namespace GoMap

variable {α : Type}

/-- `make(map[string]α)`. -/
def empty : GoMap α := ⟨[], List.nodup_nil⟩

/-- The keys, in iteration order. -/
def keys (m : GoMap α) : List String := m.entries.map Prod.fst

/-- The comma-ok read `v, ok := m[k]`. -/
def get? (m : GoMap α) (k : String) : Option α := m.entries.lookup k

/-- The assignment `m[k] = v` on the entry list: a present key keeps its
place, a new key is visited last. -/
def setEntry : List (String × α) → String → α → List (String × α)
  | [], k, v => [(k, v)]
  | (k', v') :: es, k, v => if k' = k then (k, v) :: es else (k', v') :: setEntry es k v

theorem keys_setEntry (es : List (String × α)) (k : String) (v : α) :
    (setEntry es k v).map Prod.fst =
      if k ∈ es.map Prod.fst then es.map Prod.fst else es.map Prod.fst ++ [k] := by
  induction es with
  | nil => rfl
  | cons e es ih =>
    obtain ⟨k', v'⟩ := e
    by_cases hk : k' = k
    · subst hk; simp only [setEntry, if_pos, List.map_cons, List.mem_cons_self]
    · simp only [setEntry, if_neg hk, List.map_cons, ih, List.mem_cons, Ne.symm hk, false_or]
      split_ifs <;> rfl

theorem nodup_setEntry {es : List (String × α)} (h : (es.map Prod.fst).Nodup)
    (k : String) (v : α) : ((setEntry es k v).map Prod.fst).Nodup := by
  rw [keys_setEntry]
  split
  · exact h
  · refine List.nodup_append.mpr ⟨h, List.nodup_singleton k, fun a ha hb => ?_⟩
    rw [List.mem_singleton] at hb
    subst hb
    contradiction

/-- `List.lookup` on a cons, with the key test as a proposition. -/
theorem lookup_cons_eq_ite (es : List (String × α)) (k k' : String) (v : α) :
    ((k, v) :: es).lookup k' = if k' = k then some v else es.lookup k' := by
  simp only [List.lookup_cons]; split <;> simp_all

theorem lookup_setEntry (es : List (String × α)) (k k' : String) (v : α) :
    (setEntry es k v).lookup k' = if k' = k then some v else es.lookup k' := by
  induction es with
  | nil => simp [setEntry, lookup_cons_eq_ite]
  | cons e es ih =>
    obtain ⟨k'', v'⟩ := e
    by_cases hk : k'' = k
    · subst hk; by_cases h : k' = k'' <;> simp [setEntry, lookup_cons_eq_ite, h]
    · simp only [setEntry, hk, if_false, lookup_cons_eq_ite, ih]
      by_cases h : k' = k'' <;> simp_all

/-- `m[k] = v`. -/
def set (m : GoMap α) (k : String) (v : α) : GoMap α :=
  ⟨setEntry m.entries k v, nodup_setEntry m.nodup k v⟩

@[simp] theorem get?_empty (k : String) : (empty : GoMap α).get? k = none := rfl

@[simp] theorem get?_set (m : GoMap α) (k k' : String) (v : α) :
    (m.set k v).get? k' = if k' = k then some v else m.get? k' :=
  lookup_setEntry _ _ _ _

/-- A read after an assignment, as a function update. -/
theorem get?_set_eq_update (m : GoMap α) (k : String) (v : α) :
    (m.set k v).get? = Function.update m.get? k (some v) := by
  funext k'; simp [Function.update_apply]

@[simp] theorem keys_empty : (empty : GoMap α).keys = [] := rfl

/-- An assignment adds its key to the keys. -/
theorem mem_keys_set (m : GoMap α) (k k' : String) (v : α) :
    k' ∈ (m.set k v).keys ↔ k' = k ∨ k' ∈ m.keys := by
  simp only [keys, set, keys_setEntry]
  split_ifs with h
  · exact ⟨.inr, fun h' => h'.elim (· ▸ h) id⟩
  · rw [List.mem_append, List.mem_singleton, or_comm]

theorem mem_keys_iff (m : GoMap α) (k : String) : k ∈ m.keys ↔ (m.get? k).isSome := by
  simp only [keys, get?, List.lookup_isSome_iff, List.mem_map, beq_iff_eq]
  exact ⟨fun ⟨p, hp, h⟩ => ⟨p, hp, h.symm⟩, fun ⟨p, hp, h⟩ => ⟨p, hp, h.symm⟩⟩

theorem get?_eq_none_iff (m : GoMap α) (k : String) : m.get? k = none ↔ k ∉ m.keys := by
  rw [mem_keys_iff, Option.not_isSome_iff_eq_none]

/-- A key's value sits in the entry list next to it. -/
theorem mem_entries_of_get? {m : GoMap α} {k : String} {v : α} (h : m.get? k = some v) :
    (k, v) ∈ m.entries := by
  obtain ⟨l₁, l₂, he, -⟩ := List.lookup_eq_some_iff.mp h
  simp [he]

/-- With distinct keys the entry list determines every read. -/
theorem get?_of_mem_entries {m : GoMap α} {k : String} {v : α} (h : (k, v) ∈ m.entries) :
    m.get? k = some v := by
  obtain ⟨m, hm⟩ := m
  induction m with
  | nil => simp at h
  | cons e es ih =>
    obtain ⟨k', v'⟩ := e
    simp only [List.map_cons, List.nodup_cons, List.mem_map] at hm
    simp only [get?, lookup_cons_eq_ite] at ih ⊢
    rcases List.mem_cons.mp h with he | he
    · cases he; simp
    · have hk : k ≠ k' := fun hk => hm.1 ⟨(k, v), he, hk⟩
      simpa [hk] using ih hm.2 he

/-- Two maps whose entries are permutations of each other read alike: they
are one Go map visited in two orders. -/
theorem get?_eq_of_perm {m m' : GoMap α} (h : m'.entries.Perm m.entries) : m'.get? = m.get? := by
  funext k
  cases hk : m.get? k with
  | some v => exact get?_of_mem_entries (h.mem_iff.mpr (mem_entries_of_get? hk))
  | none =>
    cases hk' : m'.get? k with
    | none => rfl
    | some v => simp [get?_of_mem_entries (h.mem_iff.mp (mem_entries_of_get? hk'))] at hk

/-! ## Writes in order

A loop that writes each element of a list at the key it names, replacing
what was there, leaves at every key the last write to it: `lastWrite`. -/

section lastWrite

variable {ι κ β : Type}

/-- The last of the writes `xs` at `k`; `w x k` is what `x` writes at `k`,
if anything. -/
def lastWrite (w : ι → κ → Option β) (xs : List ι) (k : κ) : Option β :=
  xs.reverse.findSome? (w · k)

@[simp] theorem lastWrite_nil (w : ι → κ → Option β) (k : κ) : lastWrite w [] k = none := rfl

theorem lastWrite_cons (w : ι → κ → Option β) (x : ι) (xs : List ι) (k : κ) :
    lastWrite w (x :: xs) k = (lastWrite w xs k).or (w x k) := by
  simp only [lastWrite, List.reverse_cons, List.findSome?_append, List.findSome?_cons,
    List.findSome?_nil]
  cases w x k <;> rfl

/-- A loop whose step writes `w x` over what was there ends with the last
writes over what it started with. -/
theorem foldl_eq_lastWrite {w : ι → κ → Option β} {step : (κ → Option β) → ι → κ → Option β}
    (hstep : ∀ f x k, step f x k = (w x k).or (f k)) (xs : List ι) (f : κ → Option β) (k : κ) :
    xs.foldl step f k = (lastWrite w xs k).or (f k) := by
  induction xs generalizing f with
  | nil => rfl
  | cons x xs ih => rw [List.foldl_cons, ih, hstep, lastWrite_cons, Option.or_assoc]

theorem lastWrite_eq_none_iff (w : ι → κ → Option β) (xs : List ι) (k : κ) :
    lastWrite w xs k = none ↔ ∀ x ∈ xs, w x k = none := by
  simp only [lastWrite, List.findSome?_eq_none_iff, List.mem_reverse]

/-- Whatever the last write is, some element wrote it. -/
theorem exists_of_lastWrite_eq_some {w : ι → κ → Option β} {xs : List ι} {k : κ} {v : β}
    (h : lastWrite w xs k = some v) : ∃ x ∈ xs, w x k = some v := by
  obtain ⟨x, hx, hw⟩ := List.exists_of_findSome?_eq_some h
  exact ⟨x, List.mem_reverse.mp hx, hw⟩

/-- When only `x` writes at `k`, the last write there is its, in every
order of the writes. -/
theorem lastWrite_of_unique {w : ι → κ → Option β} {xs : List ι} {k : κ} {x : ι} (hx : x ∈ xs)
    (huniq : ∀ y ∈ xs, (w y k).isSome → y = x) : lastWrite w xs k = w x k := by
  cases hl : lastWrite w xs k with
  | none => exact ((lastWrite_eq_none_iff w xs k).mp hl x hx).symm
  | some v =>
    obtain ⟨y, hy, hw⟩ := exists_of_lastWrite_eq_some hl
    rw [← huniq y hy (by simp [hw]), hw]

end lastWrite

end GoMap

end Kip
