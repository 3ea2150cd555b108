import Kip.Strings

/-!
# Kip.Filepath

Go's `path/filepath.Clean` and `filepath.Join` on Unix, at the level of
path elements.  `Clean` scans the elements of a path left to right: empty
and `.` elements are dropped, a `..` element removes the last real element
written so far, and when there is none it is kept (relative path) or
dropped (rooted path).  `Join` cleans its arguments joined with `/`, from the
first non-empty one.

`makeDeployPackage` names every archive entry `filepath.Join(".", "ROOTFS",
path)`.  The lemmas at the end describe that name through `relClean path`,
the elements `Clean` keeps of `path` read as a relative path: when none of
them is `..` the name is `ROOTFS/` followed by them, and otherwise they
start with a `..`, which eats `ROOTFS`: the name is the cleaned path of the
elements after it.
-/

namespace Kip

namespace Filepath

/-- The `..` element. -/
def dotDot : List Char := ['.', '.']

/-- The elements of a path: `strings.Split(path, "/")`. -/
def elems (p : String) : List (List Char) := p.data.splitOn '/'

/-- A `..` element: the last real element written is removed; when there
is none, a relative path keeps the `..` and a rooted path drops it. -/
def backtrack (rooted : Bool) : List (List Char) → List (List Char)
  | top :: rest =>
    if top ≠ dotDot then rest else if rooted then top :: rest else dotDot :: top :: rest
  | [] => if rooted then [] else [dotDot]

/-- One element of `Clean`'s scan.  `out` is what has been written, last
element first; `rooted` is whether the path starts with `/`. -/
def cleanStep (rooted : Bool) (out : List (List Char)) (e : List Char) : List (List Char) :=
  if e = [] ∨ e = ['.'] then out else if e = dotDot then backtrack rooted out else e :: out

/-- The elements `Clean` keeps, in order. -/
def cleanElems (rooted : Bool) (p : String) : List (List Char) :=
  ((elems p).foldl (cleanStep rooted) []).reverse

/-- `filepath.Clean` on Unix. -/
def clean (p : String) : String :=
  if p.data.head? = some '/' then ⟨'/' :: ['/'].intercalate (cleanElems true p)⟩
  else
    let out := ['/'].intercalate (cleanElems false p)
    if out = [] then "." else ⟨out⟩

/-- `filepath.Join` on Unix: the elements from the first non-empty one,
joined with `/` and cleaned; `""` when all are empty. -/
def join (elem : List String) : String :=
  match elem.dropWhile (· == "") with
  | [] => ""
  | es => clean (Strings.join es '/')

/-- The elements `Clean` keeps of `p` read as a relative path. -/
def relClean (p : String) : List (List Char) := cleanElems false p

/-! ## The scan of a relative path -/

theorem dotDot_mem_backtrack {out : List (List Char)} (h : dotDot ∈ out) :
    dotDot ∈ backtrack false out := by
  cases out with
  | nil => simp at h
  | cons top rest =>
    by_cases ht : top = dotDot
    · simp [backtrack, ht]
    · simpa [backtrack, ht, Ne.symm ht] using h

/-- A kept `..` is never removed again. -/
theorem dotDot_mem_foldl {out : List (List Char)} (h : dotDot ∈ out) (es : List (List Char)) :
    dotDot ∈ es.foldl (cleanStep false) out := by
  induction es generalizing out with
  | nil => exact h
  | cons e es ih =>
    apply ih
    unfold cleanStep
    split_ifs
    · exact h
    · exact dotDot_mem_backtrack h
    · exact List.mem_cons_of_mem _ h

/-- Backtracking over real elements never reaches a base below them. -/
theorem backtrack_append_base {out : List (List Char)} (b : List Char)
    (hout : dotDot ∉ out) (hne : out ≠ []) :
    backtrack false (out ++ [b]) = backtrack false out ++ [b] := by
  obtain ⟨top, rest, rfl⟩ := List.exists_cons_of_ne_nil hne
  have ht : top ≠ dotDot := fun h => hout (by simp [h])
  simp [backtrack, ht]

/-- A scan that keeps no `..` runs the same above any base of real
elements: the base is never reached. -/
theorem foldl_append_base (b : List Char) :
    ∀ (es : List (List Char)) (out : List (List Char)), dotDot ∉ out →
      dotDot ∉ es.foldl (cleanStep false) out →
      es.foldl (cleanStep false) (out ++ [b]) = es.foldl (cleanStep false) out ++ [b]
  | [], _, _, _ => rfl
  | e :: es, out, hout, hres => by
    have hout' : dotDot ∉ cleanStep false out e := fun h => hres (dotDot_mem_foldl h es)
    have hstep : cleanStep false (out ++ [b]) e = cleanStep false out e ++ [b] := by
      unfold cleanStep at hout' ⊢
      split_ifs at hout' ⊢
      · rfl
      · refine backtrack_append_base b hout ?_
        rintro rfl
        exact hout' (by simp [backtrack])
      · rfl
    simp only [List.foldl_cons, hstep]
    exact foldl_append_base b es _ hout' hres

/-- A `..` kept at the bottom of the scan stays there, under whatever
`backtrack` does above it. -/
theorem backtrack_append_dotDot (out : List (List Char)) :
    backtrack false (out ++ [dotDot]) = backtrack false out ++ [dotDot] := by
  cases out with
  | nil => rfl
  | cons top rest => by_cases ht : top = dotDot <;> simp [backtrack, ht]

/-- A `..` at the bottom of the scan is never reached: the scan runs
above it unchanged. -/
theorem foldl_append_dotDot (es out : List (List Char)) :
    es.foldl (cleanStep false) (out ++ [dotDot]) = es.foldl (cleanStep false) out ++ [dotDot] := by
  induction es generalizing out with
  | nil => rfl
  | cons e es ih =>
    have hstep : cleanStep false (out ++ [dotDot]) e = cleanStep false out e ++ [dotDot] := by
      unfold cleanStep
      split_ifs
      · rfl
      · exact backtrack_append_dotDot out
      · rfl
    simp only [List.foldl_cons, hstep, ih]

/-- A scan that keeps a `..` above a base of real elements: the first `..`
it keeps is the one that removed the base. -/
theorem foldl_append_base_of_dotDot {b : List Char} (hb : b ≠ dotDot) :
    ∀ (es : List (List Char)) (out : List (List Char)), dotDot ∉ out →
      dotDot ∈ es.foldl (cleanStep false) out →
      es.foldl (cleanStep false) (out ++ [b]) ++ [dotDot] = es.foldl (cleanStep false) out
  | [], _, hout, hres => absurd hres hout
  | e :: es, out, hout, hres => by
    simp only [List.foldl_cons, cleanStep] at hres ⊢
    split_ifs at hres ⊢ with h₁ h₂
    · exact foldl_append_base_of_dotDot hb es out hout hres
    · cases out with
      | nil =>
        simp only [List.nil_append, backtrack, ne_eq, hb, not_false_eq_true, if_true,
          Bool.false_eq_true, if_false]
        exact (foldl_append_dotDot es []).symm
      | cons top rest =>
        have ht : top ≠ dotDot := fun h => hout (by simp [h])
        simp only [backtrack, List.cons_append, ne_eq, ht, not_false_eq_true, if_true] at hres ⊢
        exact foldl_append_base_of_dotDot hb es rest (fun h => hout (List.mem_cons_of_mem _ h)) hres
    · exact foldl_append_base_of_dotDot hb es (e :: out)
        (by simpa [Ne.symm h₂] using hout) hres

/-- A real name: not empty, not `.`, without `/`. -/
def RealName (e : List Char) : Prop := e ≠ [] ∧ e ≠ ['.'] ∧ '/' ∉ e

instance (e : List Char) : Decidable (RealName e) := inferInstanceAs (Decidable (_ ∧ _ ∧ _))

theorem realName_dotDot : RealName dotDot := by decide

theorem mem_backtrack {rooted : Bool} {out : List (List Char)} {x : List Char}
    (h : x ∈ backtrack rooted out) : x ∈ out ∨ (rooted = false ∧ x = dotDot) := by
  cases out with
  | nil => cases rooted <;> simp_all [backtrack]
  | cons top rest =>
    simp only [backtrack] at h
    split_ifs at h with htop hr
    · exact .inl (List.mem_cons_of_mem _ h)
    · exact .inl h
    · rcases List.mem_cons.mp h with rfl | h
      · exact .inr ⟨by simpa using hr, rfl⟩
      · exact .inl h

/-- An element the scan keeps was kept before, is a `..` of a relative
path, or is the element read, a name other than `""`, `.` and `..`. -/
theorem mem_cleanStep {rooted : Bool} {out : List (List Char)} {e x : List Char}
    (h : x ∈ cleanStep rooted out e) :
    x ∈ out ∨ (rooted = false ∧ x = dotDot) ∨ (x = e ∧ e ≠ [] ∧ e ≠ ['.'] ∧ e ≠ dotDot) := by
  unfold cleanStep at h
  split_ifs at h with h₁ h₂
  · exact .inl h
  · exact (mem_backtrack h).imp_right .inl
  · rcases List.mem_cons.mp h with rfl | h
    · push_neg at h₁
      exact .inr (.inr ⟨rfl, h₁.1, h₁.2, h₂⟩)
    · exact .inl h

/-- The scan keeps real names, and on a rooted path never a `..`. -/
theorem cleanStep_inv {rooted : Bool} {out : List (List Char)} {e : List Char} (he : '/' ∉ e)
    (hout : ∀ x ∈ out, RealName x) (hroot : rooted = true → dotDot ∉ out) :
    (∀ x ∈ cleanStep rooted out e, RealName x) ∧
      (rooted = true → dotDot ∉ cleanStep rooted out e) := by
  refine ⟨fun x hx => ?_, fun hr hx => ?_⟩
  · rcases mem_cleanStep hx with hx | ⟨-, rfl⟩ | ⟨rfl, h₀, h₁, -⟩
    exacts [hout x hx, realName_dotDot, ⟨h₀, h₁, he⟩]
  · rcases mem_cleanStep hx with hx | ⟨hf, -⟩ | ⟨hxe, -, -, hne⟩
    exacts [hroot hr hx, absurd hr (by simp [hf]), hne hxe.symm]

theorem foldl_cleanStep_inv {rooted : Bool} :
    ∀ {es out : List (List Char)}, (∀ e ∈ es, '/' ∉ e) → (∀ x ∈ out, RealName x) →
      (rooted = true → dotDot ∉ out) →
      (∀ x ∈ es.foldl (cleanStep rooted) out, RealName x) ∧
        (rooted = true → dotDot ∉ es.foldl (cleanStep rooted) out)
  | [], _, _, hout, hroot => ⟨hout, hroot⟩
  | e :: es, _, hes, hout, hroot =>
    have hinv := cleanStep_inv (hes e (List.mem_cons_self _ _)) hout hroot
    @foldl_cleanStep_inv rooted es _ (fun e' he' => hes e' (List.mem_cons_of_mem _ he')) hinv.1
      hinv.2

/-- Every element `Clean` keeps is a real name (`..` included), and none
of a rooted path's is `..`. -/
theorem realName_of_mem_cleanElems (rooted : Bool) (p : String) :
    (∀ e ∈ cleanElems rooted p, RealName e) ∧ (rooted = true → dotDot ∉ cleanElems rooted p) := by
  have := @foldl_cleanStep_inv rooted (elems p) [] (fun _ he => Strings.not_mem_of_mem_splitOn he)
    (by simp) (by simp)
  simpa [cleanElems] using this

/-- The kept elements of a relative path are real names. -/
theorem realName_of_mem_relClean {p : String} {e : List Char} (h : e ∈ relClean p) :
    RealName e :=
  (realName_of_mem_cleanElems false p).1 e h

/-! ## What the scan keeps is a fixed point

The scan's stack holds names other than `..` above a pile of `..`s (none on
a rooted path), so `Clean` writes the `..`s first.  Scanning such a list
again pushes every name and piles every `..`: it comes back unchanged. -/

/-- The scan's stack, last element first: names other than `..` above a
pile of `..`s. -/
def StackShape (out : List (List Char)) : Prop :=
  ∃ ys ds, out = ys ++ ds ∧ dotDot ∉ ys ∧ ∀ d ∈ ds, d = dotDot

theorem stackShape_nil : StackShape [] := ⟨[], [], rfl, List.not_mem_nil _, nofun⟩

/-- One element keeps the shape of the stack. -/
theorem stackShape_cleanStep {out : List (List Char)} (h : StackShape out) (rooted : Bool)
    (e : List Char) : StackShape (cleanStep rooted out e) := by
  obtain ⟨ys, ds, rfl, hys, hds⟩ := h
  unfold cleanStep
  split_ifs with h₁ h₂
  · exact ⟨ys, ds, rfl, hys, hds⟩
  · cases ys with
    | cons y ys =>
      have hy : y ≠ dotDot := fun h => hys (h ▸ List.mem_cons_self _ _)
      refine ⟨ys, ds, by simp [backtrack, hy], fun h => hys (List.mem_cons_of_mem _ h), hds⟩
    | nil =>
      cases ds with
      | nil =>
        cases rooted
        · exact ⟨[], [dotDot], rfl, List.not_mem_nil _, by simp⟩
        · exact stackShape_nil
      | cons d ds =>
        obtain rfl := hds d (List.mem_cons_self _ _)
        have hpile : ∀ x ∈ dotDot :: dotDot :: ds, x = dotDot := by simpa using hds
        cases rooted
        · exact ⟨[], dotDot :: dotDot :: ds, by simp [backtrack], List.not_mem_nil _, hpile⟩
        · exact ⟨[], dotDot :: ds, by simp [backtrack], List.not_mem_nil _, hds⟩
  · exact ⟨e :: ys, ds, rfl, by simp [Ne.symm h₂, hys], hds⟩

theorem stackShape_foldl {out : List (List Char)} (h : StackShape out) (rooted : Bool)
    (es : List (List Char)) : StackShape (es.foldl (cleanStep rooted) out) := by
  induction es generalizing out with
  | nil => exact h
  | cons e es ih => exact ih (stackShape_cleanStep h rooted e)

/-- `Clean` keeps a path's `..`s first (none of a rooted path's), then
real names. -/
theorem cleanElems_eq_dotDots_append (rooted : Bool) (p : String) :
    ∃ ds ys, cleanElems rooted p = ds ++ ys ∧ (∀ d ∈ ds, d = dotDot) ∧
      (∀ y ∈ ys, RealName y ∧ y ≠ dotDot) ∧ (rooted = true → ds = []) := by
  obtain ⟨hreal, hroot⟩ := realName_of_mem_cleanElems rooted p
  obtain ⟨ys, ds, hshape, hys, hds⟩ := stackShape_foldl stackShape_nil rooted (elems p)
  have hxs : cleanElems rooted p = ds.reverse ++ ys.reverse := by
    rw [cleanElems, hshape, List.reverse_append]
  refine ⟨ds.reverse, ys.reverse, hxs, by simpa using hds, fun y hy => ?_, fun hr => ?_⟩
  · exact ⟨hreal y (hxs ▸ List.mem_append_right _ hy), fun h => hys (List.mem_reverse.mp (h ▸ hy))⟩
  · refine List.eq_nil_iff_forall_not_mem.mpr fun d hd => hroot hr ?_
    exact hxs ▸ List.mem_append_left _ (hds d (List.mem_reverse.mp hd) ▸ hd)

/-- The scan pushes a real name other than `..`. -/
theorem cleanStep_of_realName {e : List Char} (he : RealName e) (hdd : e ≠ dotDot)
    (rooted : Bool) (out : List (List Char)) : cleanStep rooted out e = e :: out := by
  rw [cleanStep, if_neg (by rintro (h | h); exacts [he.1 h, he.2.1 h]), if_neg hdd]

theorem foldl_cleanStep_of_realNames {rooted : Bool} {ys : List (List Char)}
    (hys : ∀ y ∈ ys, RealName y ∧ y ≠ dotDot) (out : List (List Char)) :
    ys.foldl (cleanStep rooted) out = ys.reverse ++ out := by
  induction ys generalizing out with
  | nil => rfl
  | cons y ys ih =>
    have hy := hys y (List.mem_cons_self _ _)
    rw [List.foldl_cons, cleanStep_of_realName hy.1 hy.2,
      ih (fun z hz => hys z (List.mem_cons_of_mem _ hz))]
    simp

/-- On a pile of `..`s, a relative path's `..` piles up. -/
theorem foldl_cleanStep_dotDots {ds : List (List Char)} (hds : ∀ d ∈ ds, d = dotDot) :
    ∀ {out : List (List Char)}, (∀ x ∈ out, x = dotDot) →
      ds.foldl (cleanStep false) out = ds.reverse ++ out := by
  induction ds with
  | nil => intro out _; rfl
  | cons d ds ih =>
    intro out hout
    obtain rfl := hds d (List.mem_cons_self _ _)
    have hstep : cleanStep false out dotDot = dotDot :: out := by
      cases out with
      | nil => rfl
      | cons top rest =>
        obtain rfl := hout top (List.mem_cons_self _ _)
        simp [cleanStep, backtrack, dotDot]
    rw [List.foldl_cons, hstep, ih (fun x hx => hds x (List.mem_cons_of_mem _ hx))
      (by simpa using hout)]
    simp

/-- What `Clean` keeps is scanned back to itself. -/
theorem foldl_cleanStep_cleanElems (rooted : Bool) (p : String) :
    (cleanElems rooted p).foldl (cleanStep rooted) [] = (cleanElems rooted p).reverse := by
  obtain ⟨ds, ys, hxs, hds, hys, hroot⟩ := cleanElems_eq_dotDots_append rooted p
  have hpile : ds.foldl (cleanStep rooted) [] = ds.reverse := by
    cases rooted
    · rw [foldl_cleanStep_dotDots hds (by simp), List.append_nil]
    · rw [hroot rfl]; rfl
  rw [hxs, List.foldl_append, hpile, foldl_cleanStep_of_realNames hys, List.reverse_append]

/-! ## `Join(".", dir, path)` -/

theorem intercalate_cons_ne_nil {x : List Char} (hx : x ≠ []) (xs : List (List Char)) :
    ['/'].intercalate (x :: xs) ≠ [] := by
  cases xs <;> simp [List.intercalate, List.intersperse, hx]

theorem intercalate_cons_of_ne_nil (x : List Char) {xs : List (List Char)} (h : xs ≠ []) :
    ['/'].intercalate (x :: xs) = x ++ '/' :: ['/'].intercalate xs := by
  obtain ⟨y, ys, rfl⟩ := List.exists_cons_of_ne_nil h
  simp [List.intercalate, List.intersperse]

/-- A joined path starts as its first element does. -/
theorem head?_intercalate_cons {x : List Char} (hx : x ≠ []) (xs : List (List Char)) :
    (['/'].intercalate (x :: xs)).head? = x.head? := by
  cases xs with
  | nil => simp [List.intercalate]
  | cons y ys => rw [intercalate_cons_of_ne_nil _ (List.cons_ne_nil _ _), List.head?_append_of_ne_nil _ hx]

/-- A joined list of real elements does not start with `/`. -/
theorem head?_intercalate_ne_slash {xs : List (List Char)} (hxs : ∀ e ∈ xs, RealName e) :
    (['/'].intercalate xs).head? ≠ some '/' := by
  cases xs with
  | nil => simp [List.intercalate]
  | cons x xs =>
    have hx := hxs x (List.mem_cons_self _ _)
    rw [head?_intercalate_cons hx.1]
    exact fun h => hx.2.2 (List.mem_of_mem_head? h)

/-- Real elements joined with `/` never end in `/`. -/
theorem getLast?_intercalate_ne_slash :
    ∀ {xs : List (List Char)}, (∀ e ∈ xs, RealName e) → (['/'].intercalate xs).getLast? ≠ some '/'
  | [], _ => by simp [List.intercalate]
  | [x], h => by
    simp only [List.intercalate, List.intersperse, List.flatten, List.append_nil]
    exact fun hl => (h x (List.mem_singleton_self x)).2.2 (List.mem_of_getLast?_eq_some hl)
  | x :: y :: ys, h => by
    have hy := h y (by simp)
    rw [intercalate_cons_of_ne_nil _ (List.cons_ne_nil _ _), ← List.singleton_append,
      ← List.append_assoc, List.getLast?_append_of_ne_nil _ (intercalate_cons_ne_nil hy.1 ys)]
    exact getLast?_intercalate_ne_slash fun e he => h e (List.mem_cons_of_mem _ he)

/-- The elements of `./dir/path`. -/
theorem elems_dot_dir (d p : String) (hd : '/' ∉ d.data) :
    elems (Strings.join [".", d, p] '/') = ['.'] :: d.data :: elems p := by
  simp only [elems, Strings.join, List.map_cons, List.map_nil, List.intercalate]
  have h1 := List.splitOnP_first (· == '/') ['.'] (by simp) '/' rfl
    (d.data ++ '/' :: p.data)
  have h2 := List.splitOnP_first (· == '/') d.data
    (fun x hx h => hd (beq_iff_eq.mp h ▸ hx)) '/' rfl p.data
  simp only [List.intersperse, List.flatten, List.append_assoc, List.cons_append,
    List.nil_append, List.singleton_append, List.append_nil] at h1 h2 ⊢
  simp only [List.splitOn, h1, h2]

/-- `Join(".", dir, path)` never ends in `/`. -/
theorem getLast?_join_dot_ne_slash (d p : String) : (join [".", d, p]).data.getLast? ≠ some '/' := by
  have hroot : (Strings.join [".", d, p] '/').data.head? ≠ some '/' := by
    simp [Strings.join, List.intercalate]
  rw [join, show [".", d, p].dropWhile (· == "") = [".", d, p] from rfl]
  simp only [clean, if_neg hroot]
  split_ifs
  · decide
  · exact getLast?_intercalate_ne_slash fun e he => realName_of_mem_relClean he

/-- `Join(".", dir, path)` for a directory name `dir` and a path whose
cleaned elements keep no `..`: `dir` followed by those elements. -/
theorem join_dot_dir {d p : String} (hd : '/' ∉ d.data) (hd₀ : d.data ≠ [])
    (hd₁ : d.data ≠ ['.']) (hd₂ : d.data ≠ dotDot) (hp : dotDot ∉ relClean p) :
    join [".", d, p] = ⟨['/'].intercalate (d.data :: relClean p)⟩ := by
  have hscan : (elems p).foldl (cleanStep false) [d.data] =
      (elems p).foldl (cleanStep false) [] ++ [d.data] :=
    foldl_append_base d.data _ [] (by simp) (by simpa [relClean, cleanElems] using hp)
  have helems : cleanElems false (Strings.join [".", d, p] '/') = d.data :: relClean p := by
    have h₁ : cleanStep false [] ['.'] = [] := by simp [cleanStep]
    have h₂ : cleanStep false [] d.data = [d.data] := by simp [cleanStep, hd₀, hd₁, hd₂]
    simp [cleanElems, elems_dot_dir d p hd, h₁, h₂, hscan, relClean]
  have hroot : (Strings.join [".", d, p] '/').data.head? ≠ some '/' := by
    simp [Strings.join, List.intercalate]
  rw [join, show [".", d, p].dropWhile (· == "") = [".", d, p] from rfl]
  simp only [clean, if_neg hroot, helems, if_neg (intercalate_cons_ne_nil hd₀ _)]

/-- `Join(".", dir, path)` for a directory name `dir` and a path whose
cleaned elements keep a `..`: they start with it, and that `..` removes
`dir`, so the join is the cleaned path of the rest. -/
theorem join_dot_dir_of_dotDot {d p : String} (hd : '/' ∉ d.data) (hd₀ : d.data ≠ [])
    (hd₁ : d.data ≠ ['.']) (hd₂ : d.data ≠ dotDot) (hp : dotDot ∈ relClean p) :
    ∃ rest, relClean p = dotDot :: rest ∧
      join [".", d, p] = if ['/'].intercalate rest = [] then "." else ⟨['/'].intercalate rest⟩ := by
  have hscan : (elems p).foldl (cleanStep false) [d.data] ++ [dotDot] =
      (elems p).foldl (cleanStep false) [] :=
    foldl_append_base_of_dotDot hd₂ _ [] (by simp) (by simpa [relClean, cleanElems] using hp)
  have helems : cleanElems false (Strings.join [".", d, p] '/') =
      ((elems p).foldl (cleanStep false) [d.data]).reverse := by
    have h₁ : cleanStep false [] ['.'] = [] := by simp [cleanStep]
    have h₂ : cleanStep false [] d.data = [d.data] := by simp [cleanStep, hd₀, hd₁, hd₂]
    simp [cleanElems, elems_dot_dir d p hd, h₁, h₂]
  have hroot : (Strings.join [".", d, p] '/').data.head? ≠ some '/' := by
    simp [Strings.join, List.intercalate]
  refine ⟨((elems p).foldl (cleanStep false) [d.data]).reverse, ?_, ?_⟩
  · rw [relClean, cleanElems, ← hscan, List.reverse_append]
    rfl
  · rw [join, show [".", d, p].dropWhile (· == "") = [".", d, p] from rfl]
    simp only [clean, if_neg hroot, helems]

/-! ## `Clean` is idempotent -/

theorem elems_slash_cons (l : List Char) : elems ⟨'/' :: l⟩ = [] :: l.splitOn '/' := by
  simp only [elems, List.splitOn, List.splitOnP_cons, beq_self_eq_true, if_true]

/-- Splitting joined elements back and scanning them scans the elements (an
empty list splits to one empty element, which the scan drops). -/
theorem foldl_cleanStep_splitOn_intercalate {xs : List (List Char)} (hxs : ∀ e ∈ xs, '/' ∉ e)
    (rooted : Bool) (out : List (List Char)) :
    ((['/'].intercalate xs).splitOn '/').foldl (cleanStep rooted) out =
      xs.foldl (cleanStep rooted) out := by
  by_cases hne : xs = []
  · subst hne
    rfl
  · rw [List.splitOn_intercalate _ _ hxs hne]

/-- `Clean` reads back, from the elements it joined, the elements it kept. -/
theorem cleanElems_intercalate (rooted : Bool) (p : String) :
    cleanElems rooted ⟨['/'].intercalate (cleanElems rooted p)⟩ = cleanElems rooted p := by
  have hsep : ∀ e ∈ cleanElems rooted p, '/' ∉ e := fun e he =>
    ((realName_of_mem_cleanElems rooted p).1 e he).2.2
  show (((['/'].intercalate (cleanElems rooted p)).splitOn '/').foldl (cleanStep rooted) []).reverse = _
  rw [foldl_cleanStep_splitOn_intercalate hsep, foldl_cleanStep_cleanElems, List.reverse_reverse]

/-- Cleaning a cleaned path changes nothing. -/
theorem clean_clean (p : String) : clean (clean p) = clean p := by
  by_cases hr : p.data.head? = some '/'
  · have hc : clean p = ⟨'/' :: ['/'].intercalate (cleanElems true p)⟩ := if_pos hr
    have helems : cleanElems true ⟨'/' :: ['/'].intercalate (cleanElems true p)⟩ =
        cleanElems true p := by
      rw [cleanElems, elems_slash_cons, List.foldl_cons, show cleanStep true [] [] = [] from rfl]
      exact cleanElems_intercalate true p
    rw [hc, clean]
    simp only [List.head?_cons, if_true, helems]
  · have hc : clean p = if ['/'].intercalate (cleanElems false p) = [] then "." else
        ⟨['/'].intercalate (cleanElems false p)⟩ := if_neg hr
    rw [hc]
    split_ifs with hout
    · rfl
    · rw [clean, if_neg (head?_intercalate_ne_slash (realName_of_mem_cleanElems false p).1)]
      simp only [cleanElems_intercalate, if_neg hout]

end Filepath

end Kip
