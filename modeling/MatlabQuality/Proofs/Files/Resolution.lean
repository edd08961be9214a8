import MatlabQuality.Proofs.Files.Discovery

/-!
# Paths in trees without links

Where there are no links, a path leads where its text says: every name goes one step down, two dots
go one step up, and nothing else moves.  So what a write and the making of directories change can be
told from the path alone.

## Main definitions

* `Tree.LinkFree` — a tree without links.
* `spelled`, `View.resolve` — the place that pieces and paths spell.
* `Path.HasParent` — a path without its last component.
* `View.KeepsBut`, `View.IsMade` — which places differ, and which directories are made for a path.

## Main statements

* `Tree.walk_eq_spelled` — a walk ends where its pieces say.
* `View.keepsBut_makeDirectoryWithin` — making a directory makes it and those above it, as far as
  they are missing.
* `View.keepsBut_write?` — a write touches one place.
* `View.place?_put_of_missing` — a new entry leaves the paths of all others as they were.
-/

namespace MatlabQuality

/-- The second path is the first without its last component. -/
def Path.HasParent (path parent : String) : Prop :=
  Path.parent? path = some parent

namespace Files

/-! ## Spelled places -/

/-- Where one piece of a path leads from a place. -/
def enter (here : Place) (piece : String) : Place :=
  if piece = "" ∨ piece = "." then here
  else if piece = ".." then here.dropLast
  else here ++ [piece]

/-- Where the pieces of a path lead from a place. -/
def spelled (here : Place) (pieces : List String) : Place :=
  pieces.foldl enter here

/-- The place that a path spells. -/
def View.resolve (v : View) (path : String) : Place :=
  spelled (if Path.isAbsolute path then [] else v.workingDirectory) (Path.pieces path)

theorem enter_of_isName {name : String} (h : Path.IsName name) (here : Place) :
    enter here name = here ++ [name] := by
  rw [enter, if_neg (not_or.2 ⟨h.ne_empty, h.ne_dot⟩), if_neg h.ne_dots]

theorem spelled_append (here : Place) (before after : List String) :
    spelled here (before ++ after) = spelled (spelled here before) after :=
  List.foldl_append

theorem spelled_of_isNames {names : List String} (h : IsNames names) (here : Place) :
    spelled here names = here ++ names := by
  induction names generalizing here with
  | nil => exact (List.append_nil here).symm
  | cons name names ih =>
    obtain ⟨hname, hnames⟩ := List.forall_mem_cons.1 h
    rw [spelled, List.foldl_cons, ← spelled, enter_of_isName hname, ih hnames, List.append_assoc,
      List.singleton_append]

/-- Pieces that are empty lead nowhere else. -/
theorem spelled_of_empty {pieces : List String} (h : ∀ piece ∈ pieces, piece = "") (here : Place) :
    spelled here pieces = here := by
  induction pieces with
  | nil => rfl
  | cons piece pieces ih =>
    obtain ⟨hpiece, hpieces⟩ := List.forall_mem_cons.1 h
    rw [spelled, List.foldl_cons, hpiece, enter, if_pos (.inl rfl)]
    exact ih hpieces

/-- Empty pieces at the end of a path say nothing. -/
theorem spelled_namedPieces (here : Place) (path : String) :
    spelled here (View.namedPieces path) = spelled here (Path.pieces path) := by
  have hsplit : Path.pieces path = View.namedPieces path ++
      ((Path.pieces path).reverse.takeWhile (· = "")).reverse := by
    rw [View.namedPieces, ← List.reverse_append, List.takeWhile_append_dropWhile,
      List.reverse_reverse]
  have hempty : ∀ piece ∈ ((Path.pieces path).reverse.takeWhile (· = "")).reverse,
      piece = "" := by
    intro piece hmem
    have htaken := List.mem_takeWhile_imp (List.mem_reverse.1 hmem)
    exact of_decide_eq_true htaken
  rw [hsplit, spelled_append, spelled_of_empty hempty]

/-- A name joined to a path goes one step down. -/
theorem View.resolve_join (v : View) {path name : String} (hpath : path ≠ "")
    (h : Path.IsName name) : v.resolve (Path.join path name) = v.resolve path ++ [name] := by
  obtain ⟨before, -, hjoin, hpieces⟩ := Path.exists_pieces_join hpath h
  rw [resolve, resolve, Path.isAbsolute_join hpath h, hjoin, spelled_append]
  rcases hpieces with hpieces | hpieces
  · rw [hpieces]
    exact enter_of_isName h _
  · rw [hpieces, spelled_append]
    exact enter_of_isName h _

/-- The pieces of names with slashes between them are the names. -/
theorem pieces_ofPieces {names : List String} (h : IsNames names) (hne : names ≠ []) :
    Path.pieces (Path.ofPieces names) = names := by
  induction names with
  | nil => exact absurd rfl hne
  | cons name names ih =>
    obtain ⟨hname, hnames⟩ := List.forall_mem_cons.1 h
    cases names with
    | nil => exact hname.pieces_eq
    | cons next names =>
      rw [Path.ofPieces, String.intercalate_cons_cons, Path.pieces_append_slash, hname.pieces_eq,
        ← Path.ofPieces, ih hnames (List.cons_ne_nil next names), List.singleton_append]

theorem isAbsolute_absolutePath (place : Place) :
    Path.isAbsolute (View.absolutePath place) = true := by
  rw [View.absolutePath, Path.isAbsolute_append (by decide)]
  decide

/-- The absolute path of a place spells it. -/
theorem View.resolve_absolutePath (v : View) {place : Place} (h : IsNames place) :
    v.resolve (View.absolutePath place) = place := by
  have hpieces : Path.pieces (View.absolutePath place) = "" :: Path.pieces (Path.ofPieces place) :=
    Path.pieces_append_slash "" (Path.ofPieces place)
  rw [resolve, isAbsolute_absolutePath, if_pos rfl, hpieces, spelled, List.foldl_cons, enter,
    if_pos (.inl rfl), ← spelled]
  by_cases hne : place = []
  · rw [hne]
    rfl
  · rw [pieces_ofPieces h hne, spelled_of_isNames h, List.nil_append]

/-! ## Trees without links -/

namespace Tree

/-- There are no links. -/
def LinkFree (t : Tree) : Prop :=
  ∀ place target, t.get? place ≠ some (.link target)

theorem LinkFree.put {t : Tree} (h : t.LinkFree) (place : Place) {e : Entry}
    (he : ∀ target, e ≠ .link target) : (t.put place e).LinkFree := by
  intro p target hget
  by_cases hp : p = place
  · by_cases hnil : place = []
    · rw [hp, hnil] at hget
      cases hget
    · rw [hp, get?_put_self hnil] at hget
      exact he target (Option.some.inj hget)
  · rw [get?_put_of_ne hp] at hget
    exact h p target hget

/-- **A walk without links ends where its pieces say.** -/
theorem walk_eq_spelled {t : Tree} (h : t.LinkFree) {links : ℕ} {here : Place}
    {pieces : List String} {place : Place} (hwalk : t.walk links here pieces = .ok place) :
    place = spelled here pieces := by
  fun_induction t.walk links here pieces with
  | case1 links here => exact (Except.ok.inj hwalk).symm
  | case2 => cases hwalk
  | case3 links here piece rest hdirectory hskip ih =>
    rw [ih hwalk, spelled, spelled, List.foldl_cons, enter, if_pos hskip]
  | case4 links here rest hdirectory hskip ih =>
    rw [ih hwalk, spelled, spelled, List.foldl_cons, enter, if_neg hskip, if_pos rfl]
  | case5 links here piece hdirectory hskip hup hmissing =>
    rw [spelled, List.foldl_cons, enter, if_neg hskip, if_neg hup]
    exact (Except.ok.inj hwalk).symm
  | case6 => cases hwalk
  | case7 => cases hwalk
  | case8 here piece rest hdirectory hskip hup next hget => exact absurd hget (h _ next)
  | case9 links here piece rest hdirectory hskip hup e hother hget ih =>
    rw [ih hwalk, spelled, spelled, List.foldl_cons, enter, if_neg hskip, if_neg hup]

/-- A new entry leads no walk astray: nothing stood where it stands, so no walk went on there. -/
theorem walk_put_of_missing {t : Tree} {place : Place} (hmissing : t.get? place = none)
    (e : Entry) {links : ℕ} {here : Place} {pieces : List String} {p : Place}
    (hwalk : t.walk links here pieces = .ok p) (hp : p ≠ place) :
    (t.put place e).walk links here pieces = .ok p := by
  have hkept : ∀ {q : Place} {old : Entry}, t.get? q = some old →
      (t.put place e).get? q = some old := by
    intro q old hold
    rw [get?_put_of_ne _ t e, hold]
    rintro rfl
    rw [hmissing] at hold
    cases hold
  have hkeeps : ∀ {q : Place}, ¬ t.get? q ≠ some .directory →
      ¬ (t.put place e).get? q ≠ some .directory :=
    fun hq => not_not.2 (hkept (not_not.1 hq))
  fun_induction t.walk links here pieces with
  | case1 links here => rw [walk, hwalk]
  | case2 => cases hwalk
  | case3 links here piece rest hdirectory hskip ih =>
    rw [walk, if_neg (hkeeps hdirectory), if_pos hskip, ih hwalk]
  | case4 links here rest hdirectory hskip ih =>
    rw [walk, if_neg (hkeeps hdirectory), if_neg hskip, if_pos rfl, ih hwalk]
  | case5 links here piece hdirectory hskip hup hnone =>
    obtain rfl := Except.ok.inj hwalk
    rw [walk, if_neg (hkeeps hdirectory), if_neg hskip, if_neg hup, get?_put_of_ne hp, hnone]
    rfl
  | case6 => cases hwalk
  | case7 => cases hwalk
  | case8 here piece rest hdirectory hskip hup next hget links start ih =>
    rw [walk, if_neg (hkeeps hdirectory), if_neg hskip, if_neg hup, hkept hget]
    exact ih hwalk
  | case9 links here piece rest hdirectory hskip hup old hother hget ih =>
    rw [walk, if_neg (hkeeps hdirectory), if_neg hskip, if_neg hup, hkept hget]
    cases old with
    | link next => exact absurd rfl (hother next)
    | file bytes => exact ih hwalk
    | directory => exact ih hwalk

end Tree

namespace View

variable {v v' : View} {path : String} {place : Place}

theorem follow_eq_resolve (h : v.tree.LinkFree)
    (hfollow : v.tree.follow v.workingDirectory path = .ok place) : place = v.resolve path := by
  rw [Tree.follow, ite_eq_iff] at hfollow
  rcases hfollow with ⟨-, hfollow⟩ | ⟨-, hfollow⟩
  · cases hfollow
  · exact Tree.walk_eq_spelled h hfollow

/-- The place of a new entry is the one that its path spells. -/
theorem newPlace_eq_resolve (h : v.tree.LinkFree) (hplace : v.newPlace path = .ok place) :
    place = v.resolve path := by
  obtain hfollow | ⟨directory, name, hname, hsplit, hwalk, rfl⟩ := newPlace_cases hplace
  · exact follow_eq_resolve h hfollow
  · rw [resolve, ← spelled_namedPieces, hsplit, spelled_append, Tree.walk_eq_spelled h hwalk]
    exact (enter_of_isName hname _).symm

/-- A name joined to the path of a directory leads one step down, whether something stands there or
not. -/
theorem follow_join (h : v.tree.LinkFree) {root : String} {top : Place}
    (hplace : v.place? root = some top) (htop : v.tree.get? top = some .directory) {name : String}
    (hname : Path.IsName name) :
    v.tree.follow v.workingDirectory (Path.join root name) = .ok (top ++ [name]) := by
  have hnames : IsNames [name] := List.forall_mem_singleton.2 hname
  obtain ⟨links, hlinks⟩ := Tree.exists_follow_foldl_join (follow_of_place? hplace) htop
  have hjoin : Path.join root name = [name].foldl Path.join root := rfl
  rw [hjoin, hlinks (List.cons_ne_nil name []) hnames]
  exact Tree.walk_name htop hname (h _)

/-- A name alone leads one step down from the working directory. -/
theorem follow_name (h : v.tree.LinkFree)
    (hhere : v.tree.get? v.workingDirectory = some .directory) {name : String}
    (hname : Path.IsName name) :
    v.tree.follow v.workingDirectory name = .ok (v.workingDirectory ++ [name]) := by
  rw [Tree.follow, if_neg hname.ne_empty, hname.isAbsolute_eq, hname.pieces_eq,
    if_neg Bool.false_ne_true]
  exact Tree.walk_name hhere hname (h _)

theorem isDirectory_of_place? (hplace : v.place? path = some place)
    (hdirectory : v.tree.get? place = some .directory) : v.isDirectory path = true := by
  rw [isDirectory, entry?_of_follow (follow_of_place? hplace), hdirectory, decide_eq_true rfl]

/-- The absolute path of a place that it shows as a directory leads to that place. -/
theorem place?_absolutePath (h : v.tree.LinkFree) (hnames : IsNames place)
    (hdirectory : v.isDirectory (absolutePath place) = true) :
    v.place? (absolutePath place) = some place ∧ v.tree.get? place = some .directory := by
  obtain ⟨top, hplace, htop⟩ := exists_place?_of_isDirectory hdirectory
  obtain rfl : top = place := by
    rw [follow_eq_resolve h (follow_of_place? hplace), resolve_absolutePath v hnames]
  exact ⟨hplace, htop⟩

/-! ## Changes -/

/-- A new entry leaves the paths of all others as they were. -/
theorem place?_put_of_missing {new : Place} (hmissing : v.tree.get? new = none) (e : Entry)
    (hplace : v.place? path = some place) :
    { v with tree := v.tree.put new e : View }.place? path = some place := by
  have hsome := isSome_get?_of_place? hplace
  have hne : place ≠ new := by
    rintro rfl
    rw [hmissing] at hsome
    cases hsome
  have hfollow := follow_of_place? hplace
  rw [Tree.follow, if_neg (ne_empty_of_place? hplace)] at hfollow
  have hput := Tree.walk_put_of_missing hmissing e hfollow hne
  rw [place?, Tree.follow, if_neg (ne_empty_of_place? hplace), hput]
  dsimp only
  rw [Tree.get?_put_of_ne hne, if_pos hsome]

/-- Only some places differ between two views, and the second has no links. -/
structure KeepsBut (v v' : View) (changed : Place → Prop) : Prop where
  workingDirectory : v'.workingDirectory = v.workingDirectory
  linkFree : v'.tree.LinkFree
  get?_ne : ∀ place, v'.tree.get? place ≠ v.tree.get? place → changed place

/-- A place at which a directory is made for a path: the path spells it, or a path above does. -/
structure IsMade (v v' : View) (path : String) (place : Place) : Prop where
  missing : v.tree.get? place = none
  directory : v'.tree.get? place = some .directory
  spelled : ∃ made, Relation.ReflTransGen Path.HasParent path made ∧ place = v.resolve made

theorem resolve_eq (h : v'.workingDirectory = v.workingDirectory) (path : String) :
    v'.resolve path = v.resolve path := by
  rw [resolve, resolve, h]

theorem keepsBut_refl (h : v.tree.LinkFree) (changed : Place → Prop) : v.KeepsBut v changed :=
  ⟨rfl, h, fun _ hne => absurd rfl hne⟩

theorem KeepsBut.mono {changed wider : Place → Prop} (h : v.KeepsBut v' changed)
    (hwider : ∀ place, changed place → wider place) : v.KeepsBut v' wider :=
  ⟨h.workingDirectory, h.linkFree, fun place hne => hwider place (h.get?_ne place hne)⟩

/-- One directory is made where its path says, and nothing stood there. -/
theorem makeOne_eq_made (h : v.tree.LinkFree) (hmade : v.makeOne path = .made v') :
    v.tree.get? (v.resolve path) = none ∧
      v' = { v with tree := v.tree.put (v.resolve path) .directory } := by
  unfold makeOne at hmade
  split at hmade
  · next place hplace =>
    obtain rfl := newPlace_eq_resolve h hplace
    split_ifs at hmade with hsome
    exact ⟨Option.not_isSome_iff_eq_none.1 hsome, (Made.made.inj hmade).symm⟩
  · cases hmade
  · cases hmade

/-- What is made for the path above is made for the path. -/
theorem KeepsBut.of_parent {parent : String} (h : v.KeepsBut v' (v.IsMade v' parent))
    (hparent : Path.HasParent path parent) : v.KeepsBut v' (v.IsMade v' path) := by
  refine h.mono fun place hplace => ?_
  obtain ⟨hmissing, hdirectory, made, hmade, hspelled⟩ := hplace
  exact ⟨hmissing, hdirectory, made, .head hparent hmade, hspelled⟩

/-- Directories made for a path, and then the one at the path. -/
theorem KeepsBut.makeOne {above : View} (h : v.KeepsBut above (v.IsMade above path))
    (hmade : above.makeOne path = .made v') : v.KeepsBut v' (v.IsMade v' path) := by
  obtain ⟨hmissing, rfl⟩ := makeOne_eq_made h.linkFree hmade
  have hne : above.resolve path ≠ [] := by
    intro hnil
    rw [hnil] at hmissing
    cases hmissing
  refine ⟨h.workingDirectory, h.linkFree.put _ (by simp), fun place hplace => ?_⟩
  by_cases hat : place = above.resolve path
  · -- Nothing stood there after the first changes, so nothing stood there before them.
    have hbefore : v.tree.get? place = none := by
      by_contra hsome
      have hchanged : above.tree.get? place ≠ v.tree.get? place := by
        rw [hat, hmissing, ← hat]
        exact fun heq => hsome heq.symm
      have hdirectory := (h.get?_ne place hchanged).directory
      rw [hat, hmissing] at hdirectory
      cases hdirectory
    refine ⟨hbefore, ?_, path, .refl, hat.trans (resolve_eq h.workingDirectory path)⟩
    rw [hat]
    exact Tree.get?_put_self hne _ _
  · have hkept : (above.tree.put (above.resolve path) .directory).get? place =
        above.tree.get? place := Tree.get?_put_of_ne hat _ _
    obtain ⟨hbefore, hdirectory, hspelled⟩ :=
      h.get?_ne place fun heq => hplace (hkept.trans heq)
    exact ⟨hbefore, hkept.trans hdirectory, hspelled⟩

/-- **Making a directory** makes it and those above it, as far as they are missing. -/
theorem keepsBut_makeDirectoryWithin (h : v.tree.LinkFree) (depth : ℕ) (path : String) :
    v.KeepsBut (v.makeDirectoryWithin depth path).1
      (v.IsMade (v.makeDirectoryWithin depth path).1 path) := by
  induction depth generalizing path with
  | zero => exact keepsBut_refl h _
  | succ depth ih =>
    unfold makeDirectoryWithin
    split_ifs
    · exact keepsBut_refl h _
    split
    · next made hmade => exact (keepsBut_refl h _).makeOne hmade
    · exact keepsBut_refl h _
    · split
      · exact keepsBut_refl h _
      · next parent hparent =>
        have habove := (ih parent).of_parent hparent
        split
        · next above hwithin =>
          rw [hwithin] at habove
          exact habove
        · next above hwithin =>
          rw [hwithin] at habove
          split
          · next made hmade => exact habove.makeOne hmade
          · exact habove

/-- **A write** touches the place that its path spells, and no other. -/
theorem keepsBut_write? (h : v.tree.LinkFree) {bytes : List UInt8}
    (hwrite : v.write? path bytes = some v') : v.KeepsBut v' (· = v.resolve path) := by
  obtain ⟨place, hfollow, -, rfl⟩ := write?_eq_some hwrite
  obtain rfl := follow_eq_resolve h hfollow
  refine ⟨rfl, h.put _ (by simp), fun place hplace => ?_⟩
  by_contra hne
  exact hplace (Tree.get?_put_of_ne hne _ _)

end View

end Files

end MatlabQuality
