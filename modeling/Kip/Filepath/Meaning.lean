import Kip.Filepath

/-!
# Kip.Filepath.Meaning

What a path names.  A directory is the list of names from it up to the
root, innermost first.  Walking an element from a directory stays there
for `""` and `.`, goes up for `..` (the root is its own parent), and goes
down into a name otherwise.  A rooted path is walked from the root, a
relative one from the working directory (`resolve`).  This is how the
kernel resolves a path when no element is a symbolic link.

`Clean` rewrites a path without changing what it names: from every working
directory, `Clean(p)` names what `p` names (`resolve_clean`).  The proof
follows `Clean`'s scan.  The elements kept so far, walked from a directory,
lead where the elements read so far lead: one element at a time
(`walk_cleanStep`), then over the whole scan (`walk_foldl_cleanStep`).  So
`Join(".", dir, path)` names `path` walked from `dir`
(`resolve_join_dot_dir`).

`Clean` is moreover a canonical form (`clean_canonical`): what it keeps is a
climb over some `..`s followed by names, which no two different outputs
share, so two paths clean alike exactly when they name the same directory
from every working directory.
-/

namespace Kip

namespace Filepath

/-! ## Walking a path -/

/-- One element walked from the directory `cur`. -/
def walkStep (cur : List (List Char)) (e : List Char) : List (List Char) :=
  if e = [] ∨ e = ['.'] then cur else if e = dotDot then cur.tail else e :: cur

/-- Where the elements `es` lead from `cur`. -/
def walk (cur : List (List Char)) (es : List (List Char)) : List (List Char) :=
  es.foldl walkStep cur

/-- The directory `p` names from the working directory `cwd`. -/
def resolve (cwd : List (List Char)) (p : String) : List (List Char) :=
  walk (if p.data.head? = some '/' then [] else cwd) (elems p)

@[simp] theorem walk_nil (cur : List (List Char)) : walk cur [] = cur := rfl

@[simp] theorem walk_cons (cur : List (List Char)) (e : List Char) (es : List (List Char)) :
    walk cur (e :: es) = walk (walkStep cur e) es := rfl

@[simp] theorem walk_append (cur xs ys : List (List Char)) :
    walk cur (xs ++ ys) = walk (walk cur xs) ys :=
  List.foldl_append _ _ _ _

theorem walkStep_of_trivial {e : List Char} (h : e = [] ∨ e = ['.']) (cur : List (List Char)) :
    walkStep cur e = cur := by
  rw [walkStep, if_pos h]

@[simp] theorem walkStep_dotDot (cur : List (List Char)) : walkStep cur dotDot = cur.tail := by
  simp [walkStep, dotDot]

theorem walkStep_of_realName {e : List Char} (he : RealName e) (hdd : e ≠ dotDot)
    (cur : List (List Char)) : walkStep cur e = e :: cur := by
  rw [walkStep, if_neg (by rintro (h | h); exacts [he.1 h, he.2.1 h]), if_neg hdd]

/-- Real elements other than `..` only go down. -/
theorem walk_of_realNames {xs : List (List Char)} (hxs : ∀ x ∈ xs, RealName x ∧ x ≠ dotDot)
    (cur : List (List Char)) : walk cur xs = xs.reverse ++ cur := by
  induction xs generalizing cur with
  | nil => rfl
  | cons x xs ih =>
    have hx := hxs x (List.mem_cons_self _ _)
    rw [walk_cons, walkStep_of_realName hx.1 hx.2,
      ih (fun y hy => hxs y (List.mem_cons_of_mem _ hy))]
    simp

/-! ## The scan against the walk -/

/-- One element: walking what the scan keeps after it leads where walking
the element after what was kept before leads.  A rooted path is walked
from the root, and its scan keeps no `..`. -/
theorem walk_cleanStep {rooted : Bool} {cur out : List (List Char)}
    (hout : ∀ x ∈ out, RealName x) (hroot : rooted = true → cur = [] ∧ dotDot ∉ out)
    (e : List Char) :
    walk cur (cleanStep rooted out e).reverse = walkStep (walk cur out.reverse) e := by
  unfold cleanStep
  split_ifs with h₁ h₂
  · rw [walkStep_of_trivial h₁]
  · subst h₂
    rw [walkStep_dotDot]
    cases out with
    | nil =>
      cases rooted
      · rfl
      · simp [backtrack, (hroot rfl).1]
    | cons top rest =>
      have ht := hout top (List.mem_cons_self _ _)
      by_cases htop : top = dotDot
      · have hr : rooted = false := by
          cases rooted
          · rfl
          · exact absurd (htop ▸ List.mem_cons_self _ _) (hroot rfl).2
        subst htop hr
        simp [backtrack]
      · simp only [backtrack, ne_eq, htop, not_false_eq_true, if_true, List.reverse_cons,
          walk_append, walk_cons, walk_nil, walkStep_of_realName ht htop, List.tail_cons]
  · push_neg at h₁
    rw [List.reverse_cons, walk_append, walk_cons, walk_nil]

/-- The whole scan: walking what `Clean` keeps of `es`, from what was kept
before, leads where walking `es` does. -/
theorem walk_foldl_cleanStep {rooted : Bool} {cur : List (List Char)} :
    ∀ (es out : List (List Char)), (∀ e ∈ es, '/' ∉ e) → (∀ x ∈ out, RealName x) →
      (rooted = true → cur = [] ∧ dotDot ∉ out) →
      walk cur (es.foldl (cleanStep rooted) out).reverse = walk (walk cur out.reverse) es
  | [], _, _, _, _ => rfl
  | e :: es, out, hes, hout, hroot => by
    have hinv := cleanStep_inv (hes e (List.mem_cons_self _ _)) hout fun hr => (hroot hr).2
    rw [List.foldl_cons, walk_foldl_cleanStep es _ (fun e' he' => hes e' (List.mem_cons_of_mem _ he'))
      hinv.1 (fun hr => ⟨(hroot hr).1, hinv.2 hr⟩), walk_cleanStep hout hroot e, walk_cons]

/-- The elements `Clean` keeps lead where the path's elements lead; a
rooted path's, from the root. -/
theorem walk_cleanElems (rooted : Bool) (p : String) {cur : List (List Char)}
    (hroot : rooted = true → cur = []) : walk cur (cleanElems rooted p) = walk cur (elems p) :=
  walk_foldl_cleanStep (elems p) [] (fun _ he => Strings.not_mem_of_mem_splitOn he) (by simp)
    fun hr => ⟨hroot hr, List.not_mem_nil _⟩

/-! ## `Clean` and `Join` keep what a path names -/

/-- Splitting the joined elements back walks as the elements do (an empty
list splits to one empty element, which stays). -/
theorem walk_splitOn_intercalate {xs : List (List Char)} (hxs : ∀ e ∈ xs, '/' ∉ e)
    (cur : List (List Char)) : walk cur ((['/'].intercalate xs).splitOn '/') = walk cur xs := by
  by_cases hne : xs = []
  · subst hne
    rfl
  · rw [List.splitOn_intercalate _ _ hxs hne]

/-- `Clean` keeps what a path names, from every working directory. -/
theorem resolve_clean (cwd : List (List Char)) (p : String) :
    resolve cwd (clean p) = resolve cwd p := by
  have hsep : ∀ rooted, ∀ e ∈ cleanElems rooted p, '/' ∉ e := fun rooted e he =>
    ((realName_of_mem_cleanElems rooted p).1 e he).2.2
  unfold resolve clean
  by_cases hr : p.data.head? = some '/'
  · simp only [if_pos hr, List.head?_cons, elems, List.splitOn, List.splitOnP_cons,
      beq_self_eq_true, if_true]
    rw [walk_cons, walkStep_of_trivial (.inl rfl), ← List.splitOn, walk_splitOn_intercalate
      (hsep true), walk_cleanElems true p fun _ => rfl]
    rfl
  · simp only [if_neg hr]
    by_cases hout : ['/'].intercalate (cleanElems false p) = []
    · rw [if_pos hout, if_neg (by decide), ← walk_cleanElems false p nofun,
        ← walk_splitOn_intercalate (hsep false), hout]
      rfl
    · rw [if_neg hout, if_neg (head?_intercalate_ne_slash (realName_of_mem_cleanElems false p).1),
        elems, walk_splitOn_intercalate (hsep false), walk_cleanElems false p nofun]

/-- `Join(".", dir, path)` for a directory name `dir` names `path` walked
from `dir` in the working directory; a leading `/` of `path` is only a
separator there. -/
theorem resolve_join_dot_dir {d p : String} (hd : '/' ∉ d.data) (hd₀ : d.data ≠ [])
    (hd₁ : d.data ≠ ['.']) (hd₂ : d.data ≠ dotDot) (cwd : List (List Char)) :
    resolve cwd (join [".", d, p]) = walk (d.data :: cwd) (elems p) := by
  have hroot : (Strings.join [".", d, p] '/').data.head? ≠ some '/' := by
    simp [Strings.join, List.intercalate]
  rw [join, show [".", d, p].dropWhile (· == "") = [".", d, p] from rfl, resolve_clean, resolve,
    if_neg hroot, elems_dot_dir d p hd, walk_cons, walk_cons, walkStep_of_trivial (.inr rfl),
    walkStep_of_realName ⟨hd₀, hd₁, hd⟩ hd₂]

/-! ## `Clean` is a canonical form -/

/-- A pile of `..`s climbs as many directories. -/
theorem walk_dotDots {ds : List (List Char)} (hds : ∀ d ∈ ds, d = dotDot) (cur : List (List Char)) :
    walk cur ds = cur.drop ds.length := by
  induction ds generalizing cur with
  | nil => rfl
  | cons d ds ih =>
    obtain rfl := hds d (List.mem_cons_self _ _)
    rw [walk_cons, walkStep_dotDot, ih (fun x hx => hds x (List.mem_cons_of_mem _ hx)),
      List.drop_tail, List.length_cons]

/-- A rooted path names, from every directory, the names `Clean` keeps of
it, down from the root. -/
theorem resolve_of_rooted {p : String} (hr : p.data.head? = some '/') (cwd : List (List Char)) :
    resolve cwd p = (cleanElems true p).reverse := by
  obtain ⟨ds, ys, hxs, -, hys, hroot⟩ := cleanElems_eq_dotDots_append true p
  rw [resolve, if_pos hr, ← walk_cleanElems true p fun _ => rfl,
    walk_of_realNames (by rw [hxs, hroot rfl]; exact hys) [], List.append_nil]

/-- A relative path climbs over the `..`s `Clean` keeps of it, then goes
down its names. -/
theorem resolve_of_relative {p : String} (hr : ¬ p.data.head? = some '/')
    {ds ys : List (List Char)} (hxs : relClean p = ds ++ ys) (hds : ∀ d ∈ ds, d = dotDot)
    (hys : ∀ y ∈ ys, RealName y ∧ y ≠ dotDot) (cwd : List (List Char)) :
    resolve cwd p = ys.reverse ++ cwd.drop ds.length := by
  rw [resolve, if_neg hr, ← walk_cleanElems false p nofun, ← relClean, hxs, walk_append,
    walk_dotDots hds, walk_of_realNames hys]

/-- A working directory `n + 1` levels below the root. -/
def deepDir (n : Nat) : List (List Char) := List.replicate (n + 1) ['x']

theorem drop_deepDir_ne_nil {m n : Nat} (h : m ≤ n) : (deepDir n).drop m ≠ [] := by
  rw [← List.length_pos, List.length_drop, deepDir, List.length_replicate]
  omega

/-- A path that names what a rooted path names from every working directory
is rooted: a relative path climbs no higher than the `..`s it keeps. -/
theorem rooted_of_resolve_eq {p q : String} (hrp : p.data.head? = some '/')
    (h : ∀ cwd, resolve cwd p = resolve cwd q) : q.data.head? = some '/' := by
  by_contra hrq
  obtain ⟨dq, yq, hq, hdq, hyq, -⟩ := cleanElems_eq_dotDots_append false q
  have h₀ := h []
  have h₁ := h (deepDir dq.length)
  rw [resolve_of_rooted hrp, resolve_of_relative hrq hq hdq hyq] at h₀ h₁
  exact drop_deepDir_ne_nil le_rfl (by simpa using (List.append_cancel_left (h₀.symm.trans h₁)).symm)

/-- Two paths clean to the same string exactly when they name the same
directory from every working directory. -/
theorem clean_eq_clean_iff (p q : String) :
    clean p = clean q ↔ ∀ cwd, resolve cwd p = resolve cwd q := by
  refine ⟨fun h cwd => by rw [← resolve_clean cwd p, h, resolve_clean], fun h => ?_⟩
  by_cases hrp : p.data.head? = some '/'
  · have hrq := rooted_of_resolve_eq hrp h
    have hpq := h []
    rw [resolve_of_rooted hrp, resolve_of_rooted hrq, List.reverse_inj] at hpq
    simp only [clean, if_pos hrp, if_pos hrq, hpq]
  · have hrq : ¬ q.data.head? = some '/' := fun hrq =>
      hrp (rooted_of_resolve_eq hrq fun cwd => (h cwd).symm)
    obtain ⟨dp, yp, hp, hdp, hyp, -⟩ := cleanElems_eq_dotDots_append false p
    obtain ⟨dq, yq, hq, hdq, hyq, -⟩ := cleanElems_eq_dotDots_append false q
    have hres : ∀ cwd : List (List Char),
        yp.reverse ++ cwd.drop dp.length = yq.reverse ++ cwd.drop dq.length :=
      fun cwd => by
        rw [← resolve_of_relative hrp hp hdp hyp, ← resolve_of_relative hrq hq hdq hyq, h]
    obtain rfl : yp = yq := List.reverse_inj.mp (by simpa using hres [])
    have hlen := congrArg List.length
      (List.append_cancel_left (hres (deepDir (dp.length + dq.length))))
    simp only [List.length_drop, deepDir, List.length_replicate] at hlen
    obtain rfl : dp = dq := by
      rw [List.eq_replicate_iff.mpr ⟨rfl, hdp⟩, List.eq_replicate_iff.mpr ⟨rfl, hdq⟩]
      congr 1
      omega
    simp only [clean, if_neg hrp, if_neg hrq, hp, hq]

/-- `Clean` is a canonical form for what a path names: the cleaned path
names what the path names from every working directory, cleaning it again
changes nothing, and two paths clean to the same string exactly when they
name the same directory from every working directory. -/
theorem clean_canonical (p q : String) :
    (∀ cwd, resolve cwd (clean p) = resolve cwd p) ∧ clean (clean p) = clean p ∧
      (clean p = clean q ↔ ∀ cwd, resolve cwd p = resolve cwd q) :=
  ⟨fun cwd => resolve_clean cwd p, clean_clean p, clean_eq_clean_iff p q⟩

end Filepath

end Kip
