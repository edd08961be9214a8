import Mathlib.Data.List.Nodup
import MatlabQuality.Files.Discovery
import MatlabQuality.Proofs.Files.WellFormed

/-!
# Entries below a directory

The entries below a directory are those of the directories that are entered from it, one after the
other, and a link is not entered.  A path that leads to the directory leads on to each of them by
the names joined to it, whatever links the path itself goes through.

## Main definitions

* `Tree.Enters` — the names of the directories that are entered.

## Main statements

* `Tree.mem_below_iff` — the entries below a place are those of the directories entered.
* `Tree.nodup_below` — each of them is listed once.
* `Tree.exists_follow_foldl_join` — a path with names joined to it leads on by the names.
* `View.entry?_foldl_join` — so it shows the entry below the directory, unless that is a link.
-/

namespace MatlabQuality.Files

open MatlabQuality.Ignore

namespace Tree

variable {t : Tree} {top : Place}

/-! ## Entered directories -/

/-- The names that lead from a place to the directories that are entered from it. -/
inductive Enters (t : Tree) (top : Place) : List String → Prop
  | top (h : t.get? top = some .directory) : Enters t top []
  | step {ways : List String} {name : String} (hways : Enters t top ways)
      (h : t.get? (top ++ (ways ++ [name])) = some .directory) : Enters t top (ways ++ [name])

theorem Enters.get?_eq {ways : List String} (h : t.Enters top ways) :
    t.get? (top ++ ways) = some .directory := by
  cases h with
  | top h => rwa [List.append_nil]
  | step _ h => exact h

theorem Enters.get?_top {ways : List String} (h : t.Enters top ways) :
    t.get? top = some .directory := by
  induction h with
  | top h => exact h
  | step _ _ ih => exact ih

theorem isReached_concat (t : Tree) (top : Place) (ways : List String) (name : String) :
    t.isReached top (ways ++ [name]) = true ↔
      t.isReached top ways = true ∧ t.get? (top ++ ways) = some .directory := by
  have htake : ∀ n ≤ ways.length, (ways ++ [name]).take n = ways.take n :=
    fun n hn => List.take_append_of_le_length hn
  simp only [isReached, List.length_append, List.length_singleton, List.range_succ,
    List.all_append, List.all_cons, List.all_nil, Bool.and_true, Bool.and_eq_true,
    decide_eq_true_eq, List.all_eq_true, List.mem_range]
  rw [htake _ le_rfl, List.take_length]
  refine and_congr_left fun _ => forall₂_congr fun n hn => ?_
  rw [htake n hn.le]

/-- The directories on the way of names are those that are entered. -/
theorem enters_iff {ways : List String} :
    t.Enters top ways ↔
      t.isReached top ways = true ∧ t.get? (top ++ ways) = some .directory := by
  constructor
  · intro h
    refine ⟨?_, h.get?_eq⟩
    induction h with
    | top h => rfl
    | step hways h ih => exact (isReached_concat t top _ _).2 ⟨ih, hways.get?_eq⟩
  · induction ways using List.reverseRecOn with
    | nil =>
      rintro ⟨-, h⟩
      exact .top (by rwa [List.append_nil] at h)
    | append_singleton ways name ih =>
      rintro ⟨hreached, h⟩
      exact .step (ih ((isReached_concat t top ways name).1 hreached)) h

/-! ## Entries below -/

theorem isSome_get?_iff {place : Place} (h : place ≠ []) :
    (t.get? place).isSome = true ↔ place ∈ t.entries.map Prod.fst := by
  rw [get?, if_neg h, List.lookup_isSome_iff, List.mem_map]
  refine exists_congr fun entry => and_congr_right fun _ => ?_
  rw [beq_iff_eq, eq_comm]

/-- The names below a place that an entry has, if it stands there. -/
def namesBelow? (t : Tree) (top place : Place) : Option (List String) :=
  if top.isPrefixOf place && top.length < place.length
      && t.isReached top (place.drop top.length) then
    some (place.drop top.length)
  else none

theorem below_eq (t : Tree) (top : Place) :
    t.below top = (t.entries.map Prod.fst).filterMap (t.namesBelow? top) := by
  rw [List.filterMap_map]
  rfl

theorem namesBelow?_eq_some_iff {place : Place} {names : List String} :
    t.namesBelow? top place = some names ↔
      place = top ++ names ∧ names ≠ [] ∧ t.isReached top names = true := by
  unfold namesBelow?
  constructor
  · intro h
    split_ifs at h with hbelow
    obtain rfl := Option.some.inj h
    simp only [Bool.and_eq_true, decide_eq_true_eq, List.isPrefixOf_iff_prefix] at hbelow
    obtain ⟨⟨⟨names, rfl⟩, hlength⟩, hreached⟩ := hbelow
    rw [List.drop_left] at hreached ⊢
    refine ⟨rfl, ?_, hreached⟩
    rintro rfl
    simp at hlength
  · rintro ⟨rfl, hne, hreached⟩
    have hlength : 0 < names.length := List.length_pos_iff.2 hne
    have hbelow : top.isPrefixOf (top ++ names) = true :=
      List.isPrefixOf_iff_prefix.2 (List.prefix_append top names)
    simp [hbelow, hreached, hlength]

/-- **The entries below a place** are those of the directories that are entered from it. -/
theorem mem_below_iff {names : List String} :
    names ∈ t.below top ↔
      ∃ ways name, names = ways ++ [name] ∧ t.Enters top ways ∧
        (t.get? (top ++ names)).isSome = true := by
  rw [below_eq, List.mem_filterMap]
  constructor
  · rintro ⟨place, hplace, hnames⟩
    obtain ⟨rfl, hne, hreached⟩ := namesBelow?_eq_some_iff.1 hnames
    obtain ⟨ways, name, rfl⟩ := (List.eq_nil_or_concat' names).resolve_left hne
    refine ⟨ways, name, rfl, ?_, ?_⟩
    · exact enters_iff.2 ((isReached_concat t top ways name).1 hreached)
    · exact (isSome_get?_iff (by simp)).2 hplace
  · rintro ⟨ways, name, rfl, hways, hsome⟩
    refine ⟨top ++ (ways ++ [name]), (isSome_get?_iff (by simp)).1 hsome, ?_⟩
    refine namesBelow?_eq_some_iff.2 ⟨rfl, by simp, ?_⟩
    exact (isReached_concat t top ways name).2 (enters_iff.1 hways)

/-- **Each entry below a place is listed once.** -/
theorem nodup_below (h : t.WellFormed) (top : Place) : (t.below top).Nodup := by
  rw [below_eq]
  refine List.Nodup.filterMap (fun p q names hp hq => ?_) h.nodup
  rw [(namesBelow?_eq_some_iff.1 hp).1, (namesBelow?_eq_some_iff.1 hq).1]

theorem isNames_of_get? (h : t.WellFormed) {names : List String}
    (hsome : (t.get? (top ++ names)).isSome = true) (hne : names ≠ []) : IsNames names := by
  obtain ⟨entry, hentry, heq⟩ :=
    List.mem_map.1 ((isSome_get?_iff (by simp [hne])).1 hsome)
  intro name hmem
  refine h.names entry hentry name ?_
  rw [heq]
  exact List.mem_append_right top hmem

/-! ## Walks that lead on -/

/-- One piece of a walk that is neither missing nor a link. -/
theorem walk_cons_of_get? {links : Nat} {here : Place} {piece : String} {e : Entry}
    (hhere : t.get? here = some .directory) (hpiece : Path.IsName piece)
    (he : t.get? (here ++ [piece]) = some e) (hlink : ∀ target, e ≠ .link target)
    (rest : List String) :
    t.walk links here (piece :: rest) = t.walk links (here ++ [piece]) rest := by
  have hskip : ¬ (piece = "" ∨ piece = ".") := not_or.2 ⟨hpiece.ne_empty, hpiece.ne_dot⟩
  rw [walk, if_neg (not_not.2 hhere), if_neg hskip, if_neg hpiece.ne_dots, he]
  cases e with
  | link target => exact absurd rfl (hlink target)
  | file bytes => rfl
  | directory => rfl

/-- A name leads one step down, whether something stands there or not. -/
theorem walk_name {links : Nat} {here : Place} {name : String}
    (hhere : t.get? here = some .directory) (hname : Path.IsName name)
    (hlink : ∀ target, t.get? (here ++ [name]) ≠ some (.link target)) :
    t.walk links here [name] = .ok (here ++ [name]) := by
  cases hget : t.get? (here ++ [name]) with
  | none =>
    have hskip : ¬ (name = "" ∨ name = ".") := not_or.2 ⟨hname.ne_empty, hname.ne_dot⟩
    rw [walk, if_neg (not_not.2 hhere), if_neg hskip, if_neg hname.ne_dots, hget]
    exact if_pos rfl
  | some e =>
    have he : ∀ target, e ≠ .link target := fun target heq => hlink target (heq ▸ hget)
    rw [walk_cons_of_get? hhere hname hget he, walk]

/-- A walk that ends in a directory leads on from there. -/
theorem exists_walk_append {links : Nat} {here : Place} {pieces : List String} {place : Place}
    (hwalk : t.walk links here pieces = .ok place) (hplace : t.get? place = some .directory) :
    ∃ links', ∀ rest, t.walk links here (pieces ++ rest) = t.walk links' place rest := by
  fun_induction t.walk links here pieces with
  | case1 links here =>
    obtain rfl := Except.ok.inj hwalk
    exact ⟨links, fun rest => rfl⟩
  | case2 => cases hwalk
  | case3 links here piece rest hdirectory hskip ih =>
    obtain ⟨links', hrest⟩ := ih hwalk
    refine ⟨links', fun more => ?_⟩
    rw [List.cons_append, walk, if_neg hdirectory, if_pos hskip, hrest]
  | case4 links here rest hdirectory hskip ih =>
    obtain ⟨links', hrest⟩ := ih hwalk
    refine ⟨links', fun more => ?_⟩
    rw [List.cons_append, walk, if_neg hdirectory, if_neg hskip, if_pos rfl, hrest]
  | case5 links here piece hdirectory hskip hup hmissing =>
    obtain rfl := Except.ok.inj hwalk
    rw [hmissing] at hplace
    cases hplace
  | case6 => cases hwalk
  | case7 => cases hwalk
  | case8 here piece rest hdirectory hskip hup next hget links start ih =>
    obtain ⟨links', hrest⟩ := ih hwalk
    refine ⟨links', fun more => ?_⟩
    rw [List.cons_append, walk, if_neg hdirectory, if_neg hskip, if_neg hup, hget, ← hrest,
      List.append_assoc]
    rfl
  | case9 links here piece rest hdirectory hskip hup e hother hget ih =>
    obtain ⟨links', hrest⟩ := ih hwalk
    refine ⟨links', fun more => ?_⟩
    rw [List.cons_append, walk, if_neg hdirectory, if_neg hskip, if_neg hup, hget, ← hrest]
    cases e with
    | link next => exact absurd rfl (hother next)
    | file old => rfl
    | directory => rfl

/-- An empty piece that is not the last one of a walk says nothing. -/
theorem walk_append_empty {links : Nat} {here : Place} (pieces : List String) {rest : List String}
    (hrest : rest ≠ []) :
    t.walk links here (pieces ++ "" :: rest) = t.walk links here (pieces ++ rest) := by
  fun_induction t.walk links here pieces with
  | case1 links here =>
    obtain ⟨next, rest, rfl⟩ := List.exists_cons_of_ne_nil hrest
    rw [List.nil_append, List.nil_append, walk]
    by_cases hdirectory : t.get? here ≠ some .directory
    · rw [if_pos hdirectory, walk, if_pos hdirectory]
    · rw [if_neg hdirectory, if_pos (.inl rfl)]
  | case2 links here piece rest' hdirectory =>
    simp only [List.cons_append, walk, if_pos hdirectory]
  | case3 links here piece rest' hdirectory hskip ih =>
    simp only [List.cons_append, walk, if_neg hdirectory, if_pos hskip, ih]
  | case4 links here rest' hdirectory hskip ih =>
    simp only [List.cons_append, walk, if_neg hdirectory, if_neg hskip, if_true, ih]
  | case5 links here piece hdirectory hskip hup hmissing =>
    simp only [List.cons_append, List.nil_append, walk, if_neg hdirectory, if_neg hskip,
      if_neg hup, hmissing, if_neg hrest, reduceCtorEq, if_false]
  | case6 links here piece rest' hdirectory hskip hup hmissing hlast =>
    simp only [List.cons_append, walk, if_neg hdirectory, if_neg hskip, if_neg hup, hmissing,
      List.append_eq_nil_iff, hrest, reduceCtorEq, and_false, if_false]
  | case7 here piece rest' hdirectory hskip hup next hget =>
    simp only [List.cons_append, walk, if_neg hdirectory, if_neg hskip, if_neg hup, hget]
  | case8 here piece rest' hdirectory hskip hup next hget links start ih =>
    rw [List.append_assoc, List.append_assoc] at ih
    simp only [List.cons_append, walk, if_neg hdirectory, if_neg hskip, if_neg hup, hget]
    exact ih
  | case9 links here piece rest' hdirectory hskip hup e hother hget ih =>
    simp only [List.cons_append, walk, if_neg hdirectory, if_neg hskip, if_neg hup, hget]
    cases e with
    | link next => exact absurd rfl (hother next)
    | file old => exact ih
    | directory => exact ih

/-- **A path with names joined to it** leads on by the names from where the path leads. -/
theorem exists_follow_foldl_join {here : Place} {root : String}
    (hfollow : t.follow here root = .ok top) (htop : t.get? top = some .directory) :
    ∃ links, ∀ {names : List String}, names ≠ [] → IsNames names →
      t.follow here (names.foldl Path.join root) = t.walk links top names := by
  have hroot : root ≠ "" := by
    rintro rfl
    cases hfollow
  rw [follow, if_neg hroot] at hfollow
  obtain ⟨links, hlinks⟩ := exists_walk_append hfollow htop
  refine ⟨links, fun {names} hne hnames => ?_⟩
  rw [follow, if_neg (Path.foldl_join_ne_empty hroot hnames),
    Path.isAbsolute_foldl_join hroot hnames, ← hlinks]
  obtain ⟨before, hpath, hpieces | hpieces⟩ := Path.exists_pieces_foldl_join hroot hne hnames
  · rw [hpath, hpieces]
  · rw [hpath, hpieces, List.append_assoc, List.singleton_append, walk_append_empty before hne]

/-- A walk through directories that are entered. -/
theorem Enters.walk_append {links : Nat} {ways : List String} (h : t.Enters top ways)
    (hnames : IsNames ways) (rest : List String) :
    t.walk links top (ways ++ rest) = t.walk links (top ++ ways) rest := by
  induction h generalizing rest with
  | top h => rw [List.nil_append, List.append_nil]
  | @step ways name hways h ih =>
    have hinit : IsNames ways := fun other hmem => hnames other (List.mem_append_left _ hmem)
    have hname : Path.IsName name := hnames name (by simp)
    rw [← List.append_assoc] at h
    rw [List.append_assoc, List.singleton_append, ih hinit,
      walk_cons_of_get? hways.get?_eq hname h (by simp), List.append_assoc]

end Tree

/-! ## What paths show -/

namespace View

variable {v : View} {root : String} {top : Place}

theorem follow_of_place? (h : v.place? root = some top) :
    v.tree.follow v.workingDirectory root = .ok top := by
  unfold place? at h
  split at h
  · next place hfollow =>
    split_ifs at h
    rw [hfollow, Option.some.inj h]
  · cases h

theorem ne_empty_of_place? (h : v.place? root = some top) : root ≠ "" := by
  rintro rfl
  cases follow_of_place? h

/-- **The path of an entry below a directory shows it**, unless it is a link. -/
theorem entry?_foldl_join (hplace : v.place? root = some top) {ways : List String} {name : String}
    {e : Entry} (hways : v.tree.Enters top ways) (hnames : IsNames (ways ++ [name]))
    (he : v.tree.get? (top ++ (ways ++ [name])) = some e) (hlink : ∀ target, e ≠ .link target) :
    v.entry? ((ways ++ [name]).foldl Path.join root) = some e := by
  obtain ⟨links, hlinks⟩ :=
    Tree.exists_follow_foldl_join (follow_of_place? hplace) hways.get?_top
  have hinit : IsNames ways := fun other hmem => hnames other (List.mem_append_left _ hmem)
  have hname : Path.IsName name := hnames name (by simp)
  have hfollow : v.tree.follow v.workingDirectory ((ways ++ [name]).foldl Path.join root) =
      .ok (top ++ (ways ++ [name])) := by
    have hnext : v.tree.get? (top ++ ways ++ [name]) = some e := by rwa [List.append_assoc]
    rw [hlinks (by simp) hnames, hways.walk_append hinit,
      Tree.walk_cons_of_get? hways.get?_eq hname hnext hlink, Tree.walk, List.append_assoc]
  rw [View.entry?, place?, hfollow]
  simp [he]

end View

end MatlabQuality.Files
