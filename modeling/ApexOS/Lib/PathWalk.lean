import Mathlib.Data.List.DropRight

/-!
# Paths through a tree with symbolic links

A path is walked piece by piece. A link is replaced by its target; a walk follows a bounded number
of them. A walk that stops one name short of its end has found where an entry would be made.

## Main definitions

* `Path`, `Tree`: what is walked, and through what
* `walk`, `FileSystem.resolve`: where a path leads
* `FileSystem.canonicalize`, `FileSystem.openLocation`: the entry it leads to, and the file that
  opening it for writing changes or makes

## Main results

* `walk_append`: a walk over one path and then another
* `FileSystem.resolve_room`: what is made is made under the last name of the path, unless that is a
  link
-/

namespace PathWalk

/-- What stands between the slashes of a path: nothing, `.`, `..` or a name. -/
inductive Piece
  | empty
  | dot
  | dotdot
  | name (n : String)
  deriving DecidableEq, Repr

/-- A piece that leads nowhere else. -/
def Piece.isTrivial : Piece → Bool
  | .empty | .dot => true
  | _ => false

structure Path where
  absolute : Bool
  pieces : List Piece
  deriving DecidableEq, Repr

/-- The path without any text. -/
def Path.isEmpty (path : Path) : Bool := !path.absolute && path.pieces.isEmpty

/-- A dot that a relative path begins with; another dot is no component. -/
def Path.lead (path : Path) : List Piece :=
  if path.absolute = false ∧ path.pieces.head? = some .dot then [.dot] else []

/-- The other pieces, up to the last component. -/
def Path.body (path : Path) : List Piece :=
  (path.pieces.drop path.lead.length).rdropWhile Piece.isTrivial

/-- The path without its last component. -/
def Path.parent (path : Path) : Option Path :=
  if path.body = [] then if path.lead = [] then none else some ⟨false, []⟩
  else some ⟨path.absolute, path.lead ++ path.body.dropLast.rdropWhile Piece.isTrivial⟩

/-- Its last component, if that is a name. -/
def Path.fileName (path : Path) : Option String :=
  match path.body.getLast? with
  | some (.name n) => some n
  | _ => none

/-- An entry of the file system, with all that is under it. -/
inductive Tree
  | file
  | link (target : Path)
  | dir (entries : List (String × Tree))

namespace Tree

def child : Tree → String → Option Tree
  | .dir entries, n => entries.lookup n
  | _, _ => none

/-- The entry at a place: the names on the way there, none of them a link. -/
def at? (tree : Tree) (place : List String) : Option Tree := place.foldlM child tree

def isDir : Option Tree → Bool
  | some (.dir _) => true
  | _ => false

end Tree

/-- Where a walk ends: at an entry, or where an entry can be made. -/
inductive End
  | entry (place : List String)
  | room (place : List String)
  deriving DecidableEq, Repr

section

variable (tree : Tree)

/-- Where the walk starts. -/
def Path.start (path : Path) (cwd : List String) : List String := if path.absolute then [] else cwd

/-- A walk up to the first link, and from there on as given. -/
def walkWith (follow : List String → Path → List Piece → Option End) :
    List String → List Piece → Option End
  | cur, [] => some (.entry cur)
  | cur, piece :: rest =>
    if Tree.isDir (tree.at? cur) then
      match piece with
      | .empty | .dot => walkWith follow cur rest
      | .dotdot => walkWith follow cur.dropLast rest
      | .name n =>
        match tree.at? (cur ++ [n]) with
        | none => if rest = [] then some (.room (cur ++ [n])) else none
        | some (.link target) => follow cur target rest
        | some _ => walkWith follow (cur ++ [n]) rest
    else none

/-- A walk that follows at most this many links. -/
def walk : ℕ → List String → List Piece → Option End
  | 0 => walkWith tree fun _ _ _ => none
  | links + 1 => walkWith tree fun cur target rest =>
    if target.isEmpty then none else walk links (target.start cur) (target.pieces ++ rest)

end

/-! ### What a walk finds -/

section

variable {tree : Tree}

theorem walk_nil (links : ℕ) (cur : List String) : walk tree links cur [] = some (.entry cur) := by
  cases links <;> rfl

theorem walkWith_cons (follow : List String → Path → List Piece → Option End) (cur : List String)
    (piece : Piece) (rest : List Piece) : walkWith tree follow cur (piece :: rest) =
      if Tree.isDir (tree.at? cur) then
        match piece with
        | .empty | .dot => walkWith tree follow cur rest
        | .dotdot => walkWith tree follow cur.dropLast rest
        | .name n =>
          match tree.at? (cur ++ [n]) with
          | none => if rest = [] then some (.room (cur ++ [n])) else none
          | some (.link target) => follow cur target rest
          | some _ => walkWith tree follow (cur ++ [n]) rest
      else none := rfl

theorem walkWith_append {follow : List String → Path → List Piece → Option End} (links : ℕ)
    (hwalk : walkWith tree follow = walk tree links) {b : List Piece} (hb : b ≠ []) {r : End}
    (hfollow : ∀ cur target rest, follow cur target (rest ++ b) = some r →
      ∃ d m, follow cur target rest = some (.entry d) ∧ walk tree m d b = some r)
    {cur : List String} {a : List Piece} (h : walkWith tree follow cur (a ++ b) = some r) :
    ∃ d m, walkWith tree follow cur a = some (.entry d) ∧ walk tree m d b = some r := by
  induction a generalizing cur with
  | nil => exact ⟨cur, links, rfl, by rw [← hwalk]; exact h⟩
  | cons piece a ih =>
    rw [List.cons_append, walkWith_cons] at h
    rw [walkWith_cons]
    split at h
    · rename_i hdir
      rw [if_pos hdir]
      cases piece with
      | empty => exact ih h
      | dot => exact ih h
      | dotdot => exact ih h
      | name n =>
        simp only at h ⊢
        split at h
        · rw [if_neg (by simp [hb])] at h
          cases h
        · exact hfollow _ _ _ h
        · exact ih h
    · cases h

/-- **A walk over one path and then another**, the other from where the one ends. -/
theorem walk_append {links : ℕ} {cur : List String} {a b : List Piece} {r : End} (hb : b ≠ [])
    (h : walk tree links cur (a ++ b) = some r) :
    ∃ d m, walk tree links cur a = some (.entry d) ∧ walk tree m d b = some r := by
  induction links generalizing cur a with
  | zero => exact walkWith_append 0 rfl hb (fun _ _ _ h => nomatch h) h
  | succ links ih =>
    refine walkWith_append (links + 1) rfl hb (fun cur target rest h => ?_) h
    split at h
    · cases h
    · rename_i htarget
      rw [if_neg htarget]
      rw [← List.append_assoc] at h
      exact ih h

theorem walk_cons (tree : Tree) (links : ℕ) (cur : List String) (piece : Piece)
    (rest : List Piece) :
    ∃ follow, walkWith tree follow = walk tree links ∧ walk tree links cur (piece :: rest) =
      walkWith tree follow cur (piece :: rest) := by
  cases links with
  | zero => exact ⟨_, rfl, rfl⟩
  | succ links => exact ⟨_, rfl, rfl⟩

/-- Pieces that lead nowhere else do not. -/
theorem walk_trivial {links : ℕ} {cur place : List String} {pieces : List Piece}
    (htrivial : ∀ piece ∈ pieces, piece.isTrivial = true)
    (h : walk tree links cur pieces = some (.entry place)) : cur = place := by
  induction pieces with
  | nil =>
    rw [walk_nil] at h
    exact End.entry.inj (Option.some.inj h)
  | cons piece pieces ih =>
    obtain ⟨follow, hfollow, hcons⟩ := walk_cons tree links cur piece pieces
    rw [hcons, walkWith_cons, hfollow] at h
    split at h
    · have hpieces : ∀ piece ∈ pieces, piece.isTrivial = true := fun piece hmem =>
        htrivial piece (List.mem_cons_of_mem _ hmem)
      cases piece with
      | empty => exact ih hpieces h
      | dot => exact ih hpieces h
      | dotdot => exact nomatch htrivial _ List.mem_cons_self
      | name n => exact nomatch htrivial _ List.mem_cons_self
    · cases h

/-- **The last name of a path** is where an entry can be made, unless that is a link. -/
theorem walk_room {links : ℕ} {cur place : List String} {pieces : List Piece}
    (h : walk tree links cur pieces = some (.room place)) : ∃ front n d,
      pieces = front ++ [.name n] ∧ walk tree links cur front = some (.entry d) ∧
        ((tree.at? (d ++ [n]) = none ∧ place = d ++ [n]) ∨
          ∃ target, tree.at? (d ++ [n]) = some (.link target)) := by
  rcases List.eq_nil_or_concat pieces with rfl | ⟨front, last, rfl⟩
  · rw [walk_nil] at h
    cases h
  · rw [List.concat_eq_append] at h ⊢
    obtain ⟨d, m, hfront, hlast⟩ := walk_append (List.cons_ne_nil last []) h
    obtain ⟨follow, hfollow, hcons⟩ := walk_cons tree m d last []
    rw [hcons, walkWith_cons, hfollow] at hlast
    simp only [walk_nil] at hlast
    split at hlast
    · cases last with
      | empty => cases hlast
      | dot => cases hlast
      | dotdot => cases hlast
      | name n =>
        refine ⟨front, n, d, rfl, hfront, ?_⟩
        simp only at hlast
        split at hlast
        · rename_i hnone
          rw [if_pos trivial] at hlast
          exact .inl ⟨hnone, (End.room.inj (Option.some.inj hlast)).symm⟩
        · rename_i target hlink
          exact .inr ⟨target, hlink⟩
        · cases hlast
    · cases hlast

end

/-! ### The last component -/

theorem Path.lead_eq_nil_or (path : Path) :
    path.lead = [] ∨ (path.lead = [.dot] ∧ path.pieces.head? = some .dot) := by
  rw [Path.lead]
  split
  · rename_i h
    exact .inr ⟨rfl, h.2⟩
  · exact .inl rfl

theorem Path.parent_of_isEmpty {path : Path} (h : path.isEmpty = true) : path.parent = none := by
  obtain ⟨absolute, pieces⟩ := path
  rw [Path.isEmpty, Bool.and_eq_true, Bool.not_eq_true', List.isEmpty_iff] at h
  obtain ⟨rfl, rfl⟩ : absolute = false ∧ pieces = [] := h
  rfl

theorem length_rdropWhile_le (pieces : List Piece) :
    (pieces.rdropWhile Piece.isTrivial).length ≤ pieces.length :=
  (List.rdropWhile_prefix _ _).length_le

/-- The path without its last component is shorter. -/
theorem Path.parent_lt {path parent : Path} (h : path.parent = some parent) :
    parent.pieces.length < path.pieces.length := by
  rw [Path.parent] at h
  split at h
  · split at h
    · cases h
    · obtain hlead | ⟨-, hhead⟩ := path.lead_eq_nil_or
      · contradiction
      · obtain rfl := Option.some.inj h
        rw [List.length_nil, List.length_pos_iff]
        rintro hnil
        rw [hnil] at hhead
        cases hhead
  · rename_i hbody
    obtain rfl := Option.some.inj h
    have hdrop := length_rdropWhile_le path.body.dropLast
    have hlength : path.body.length ≤ (path.pieces.drop path.lead.length).length :=
      length_rdropWhile_le _
    have hpos := List.length_pos_iff.mpr hbody
    rw [List.length_dropLast] at hdrop
    rw [List.length_drop] at hlength
    simp only [List.length_append]
    omega

/-- The components of a path that ends in a name. -/
theorem Path.body_of_concat {path : Path} {front : List Piece} {n : String}
    (h : path.pieces = front ++ [.name n]) :
    path.body = front.drop path.lead.length ++ [.name n] ∧
      path.lead ++ front.drop path.lead.length = front := by
  obtain hlead | ⟨hlead, hhead⟩ := path.lead_eq_nil_or
  · rw [Path.body, hlead, h, List.length_nil, List.drop_zero, List.drop_zero,
      List.rdropWhile_concat_neg _ _ _ Bool.false_ne_true]
    exact ⟨rfl, rfl⟩
  · rw [h] at hhead
    cases front with
    | nil => cases hhead
    | cons piece front =>
      obtain rfl : piece = .dot := Option.some.inj hhead
      rw [Path.body, hlead, h, List.cons_append, List.length_singleton, List.drop_succ_cons,
        List.drop_zero, List.drop_succ_cons, List.drop_zero,
        List.rdropWhile_concat_neg _ _ _ Bool.false_ne_true]
      exact ⟨rfl, rfl⟩

theorem Path.fileName_of_concat {path : Path} {front : List Piece} {n : String}
    (h : path.pieces = front ++ [.name n]) : path.fileName = some n := by
  rw [Path.fileName, (Path.body_of_concat h).1, List.getLast?_concat]

theorem Path.parent_of_concat {path : Path} {front : List Piece} {n : String}
    (h : path.pieces = front ++ [.name n]) : ∃ after, (∀ piece ∈ after, piece.isTrivial = true) ∧
      ∃ parent : Path, path.parent = some parent ∧ parent.absolute = path.absolute ∧
        front = parent.pieces ++ after := by
  obtain ⟨hbody, hfront⟩ := Path.body_of_concat h
  refine ⟨(front.drop path.lead.length).rtakeWhile Piece.isTrivial,
    fun piece => List.mem_rtakeWhile_imp,
    ⟨path.absolute, path.lead ++ (front.drop path.lead.length).rdropWhile Piece.isTrivial⟩, ?_,
    rfl, ?_⟩
  · rw [Path.parent, if_neg (by simp [hbody]), hbody, List.dropLast_concat]
  · rw [List.append_assoc, List.rdropWhile_append_rtakeWhile, hfront]

/-! ### Where a path leads -/

/-- A file system that does not change, with a working directory, and how many links are
followed. -/
structure FileSystem where
  tree : Tree
  cwd : List String
  limit : ℕ

namespace FileSystem

variable (fs : FileSystem)

def resolve (path : Path) : Option End :=
  if path.isEmpty then none else walk fs.tree fs.limit (path.start fs.cwd) path.pieces

/-- The entry that a path leads to. -/
def canonicalize (path : Path) : Option (List String) :=
  match fs.resolve path with
  | some (.entry place) => some place
  | _ => none

/-- The file that opening a path for writing changes, or makes. -/
def openLocation (path : Path) : Option (List String) :=
  match fs.resolve path with
  | some (.entry place) =>
    match fs.tree.at? place with
    | some .file => some place
    | _ => none
  | some (.room place) => some place
  | none => none

variable {fs}

theorem canonicalize_eq_none_of_room {path : Path} {place : List String}
    (h : fs.resolve path = some (.room place)) : fs.canonicalize path = none := by
  rw [canonicalize, h]

/-- **What is made is made under the last name of the path**, in the directory that the rest of it
leads to, unless there is a link of that name. -/
theorem resolve_room {path : Path} {place : List String}
    (h : fs.resolve path = some (.room place)) : ∃ parent n, path.parent = some parent ∧
      path.fileName = some n ∧ (parent.isEmpty ∨ ∃ d, fs.canonicalize parent = some d ∧
        ((fs.tree.at? (d ++ [n]) = none ∧ place = d ++ [n]) ∨
          ∃ target, fs.tree.at? (d ++ [n]) = some (.link target))) := by
  rw [resolve] at h
  split at h
  · cases h
  · obtain ⟨front, n, d, hpieces, hfront, hend⟩ := walk_room h
    obtain ⟨after, hafter, parent, hparent, habsolute, rfl⟩ := Path.parent_of_concat hpieces
    refine ⟨parent, n, hparent, Path.fileName_of_concat hpieces, ?_⟩
    by_cases hempty : parent.isEmpty
    · exact .inl hempty
    · refine .inr ⟨d, ?_, hend⟩
      have hstart : parent.start fs.cwd = path.start fs.cwd := by
        rw [Path.start, Path.start, habsolute]
      have hwalk : walk fs.tree fs.limit (path.start fs.cwd) parent.pieces = some (.entry d) := by
        cases after with
        | nil => rwa [List.append_nil] at hfront
        | cons piece after =>
          obtain ⟨d', m, hd', hd⟩ := walk_append (List.cons_ne_nil piece after) hfront
          rw [hd', walk_trivial hafter hd]
      rw [canonicalize, resolve, if_neg hempty, hstart, hwalk]

end FileSystem

end PathWalk
