import Mathlib.Data.List.Basic

/-!
# Kip.Strings

Go's `strings.Split` and `strings.Join` for a one-character separator, the
only form the modelled code uses (`"-"` for image names, `"/"` for paths).
A Go string is modelled by a Lean `String`; an ASCII separator byte never
occurs inside the UTF-8 encoding of another character, so splitting the
characters and splitting the bytes agree.

`strings.Split(s, sep)` returns one more piece than `s` has separators, and
no piece holds a separator; `Join` after `Split` gives back `s`, and `Split`
after `Join` gives back the pieces when none of them holds a separator.
-/

namespace Kip

namespace Strings

/-- `strings.Split(s, string(sep))`. -/
def split (s : String) (sep : Char) : List String := (s.data.splitOn sep).map String.mk

/-- `strings.Join(elems, string(sep))`. -/
def join (elems : List String) (sep : Char) : String :=
  ⟨[sep].intercalate (elems.map String.data)⟩

/-! ## `List.splitOn` -/

theorem length_splitOn (xs : List Char) (x : Char) :
    (xs.splitOn x).length = xs.count x + 1 := by
  induction xs with
  | nil => rfl
  | cons y ys ih =>
    simp only [List.splitOn, List.splitOnP_cons] at ih ⊢
    by_cases h : y = x
    · simp [h, ih]
    · simp [h, ih, List.count_cons]

theorem not_mem_of_mem_splitOn {xs l : List Char} {x : Char} (h : l ∈ xs.splitOn x) :
    x ∉ l := by
  induction xs generalizing l with
  | nil => simp_all [List.splitOn]
  | cons y ys ih =>
    simp only [List.splitOn, List.splitOnP_cons] at ih h
    by_cases hy : y = x
    · simp only [hy, beq_self_eq_true, if_true, List.mem_cons] at h
      rcases h with rfl | h
      · simp
      · exact ih h
    · simp only [beq_iff_eq, hy, if_false] at h
      obtain ⟨l₀, ls, hs⟩ := List.exists_cons_of_ne_nil (List.splitOnP_ne_nil (· == x) ys)
      rw [hs, List.modifyHead_cons, List.mem_cons] at h
      rcases h with rfl | h
      · simpa [Ne.symm hy] using @ih l₀ (by simp [hs])
      · exact ih (by simp [hs, h])

/-! ## `Split` and `Join` -/

/-- `Split` returns one more piece than there are separators. -/
theorem length_split (s : String) (sep : Char) :
    (split s sep).length = s.data.count sep + 1 := by
  simp [split, length_splitOn]

/-- No piece of `Split` holds the separator. -/
theorem not_mem_of_mem_split {s p : String} {sep : Char} (h : p ∈ split s sep) :
    sep ∉ p.data := by
  obtain ⟨l, hl, rfl⟩ := List.mem_map.mp h
  exact not_mem_of_mem_splitOn hl

/-- `Join` undoes `Split`. -/
theorem join_split (s : String) (sep : Char) : join (split s sep) sep = s := by
  simp [join, split, List.map_map, Function.comp_def, List.intercalate_splitOn]

/-- `Split` undoes `Join` on pieces free of the separator. -/
theorem split_join {elems : List String} {sep : Char} (hne : elems ≠ [])
    (h : ∀ e ∈ elems, sep ∉ e.data) : split (join elems sep) sep = elems := by
  have hs : ([sep].intercalate (elems.map String.data)).splitOn sep = elems.map String.data :=
    List.splitOn_intercalate _ sep (by simpa using h) (by simpa using hne)
  simp [split, join, hs, List.map_map, Function.comp_def]

/-- Joining `n` separator-free pieces writes exactly `n - 1` separators. -/
theorem count_join {elems : List String} {sep : Char} (hne : elems ≠ [])
    (h : ∀ e ∈ elems, sep ∉ e.data) : (join elems sep).data.count sep + 1 = elems.length := by
  have := length_split (join elems sep) sep
  rwa [split_join hne h, eq_comm] at this

/-! ## Terminated pieces -/

/-- `Join` writes the first piece, then the separator, then the rest. -/
theorem data_join_cons_cons (e e' : String) (es : List String) (sep : Char) :
    (join (e :: e' :: es) sep).data = e.data ++ sep :: (join (e' :: es) sep).data := by
  simp [join, List.intercalate, List.intersperse]

/-- A character of a `Join` is the separator or a character of a piece. -/
theorem mem_join {elems : List String} {sep c : Char} (h : c ∈ (join elems sep).data) :
    c = sep ∨ ∃ e ∈ elems, c ∈ e.data := by
  induction elems with
  | nil => simp [join, List.intercalate] at h
  | cons e es ih =>
    cases es with
    | nil => exact .inr ⟨e, by simpa [join, List.intercalate] using h⟩
    | cons e' es =>
      rw [data_join_cons_cons] at h
      simp only [List.mem_append, List.mem_cons] at h
      rcases h with h | rfl | h
      · exact .inr ⟨e, List.mem_cons_self _ _, h⟩
      · exact .inl rfl
      · rcases ih h with h | ⟨e'', he, h⟩
        · exact .inl h
        · exact .inr ⟨e'', List.mem_cons_of_mem _ he, h⟩

/-- `String.join` concatenates the characters of the pieces. -/
theorem data_stringJoin (l : List String) :
    (String.join l).data = (l.map String.data).flatten := by
  suffices ∀ acc : String,
      (l.foldl (· ++ ·) acc).data = acc.data ++ (l.map String.data).flatten from this ""
  induction l with
  | nil => simp
  | cons s l ih => intro acc; simp [ih]

/-- Writing every piece followed by the separator is joining the pieces
and one empty piece after them. -/
theorem data_join_append_empty (elems : List String) (sep : Char) :
    (join (elems ++ [""]) sep).data = (elems.map fun e => e.data ++ [sep]).flatten := by
  induction elems with
  | nil => rfl
  | cons e es ih =>
    cases es with
    | nil => simp [join, List.intercalate, List.intersperse]
    | cons e' es =>
      rw [List.cons_append, List.cons_append, data_join_cons_cons, ← List.cons_append, ih]
      simp

end Strings

end Kip
