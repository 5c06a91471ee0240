import ApexOS.Lib.PathWalk
import ApexOS.Lib.Table

/-!
# A file system of inodes, shared with others

What a process holds open is an inode, not a place, so the calls here are relative to a directory
that may have been moved since it was opened. Each call happens at one instant; between two calls
the others may do anything, and any call may fail for a reason of its own.

A path is resolved as `openat2` does with `RESOLVE_BENEATH` and `RESOLVE_NO_SYMLINKS`: link by link
it is refused, and so is a step up (the kernel allows one that stays below; the programs here ask
for none).

`Inside fs root` is what lies beneath the root, or beneath something that no directory lists any
more. `Safe` is a rule of Hoare's kind: what a program changes is inside at that instant.

## Main definitions

* `Fs`: the inodes
* `Fs.openat2`, `mkdirat`, `unlinkat`, `renameat`, `fstatat`, `readdir`, `read`, `write`
* `Sys`, `call`: programs of such calls
* `Inside`, `Sheltered`, `Safe`: confinement, when the others let nothing out

## Main results

* `Inside.walk`: what a path leads to from inside is inside
* `Safe.bind`, `Safe.call`: the rules
-/

namespace Inodes

open PathWalk

abbrev Ino := ℕ

/-- What an inode is. -/
inductive Node
  | file (bytes : List UInt8)
  | link (target : Path)
  | dir (entries : Table String Ino)

/-- The inodes that were ever made; `none` is a directory that is gone. -/
structure Fs where
  nodes : List (Option Node)

inductive Errno
  | noent
  | notdir
  | isdir
  | exist
  | notempty
  | loop
  | xdev
  | inval
  | acces
  | other (code : ℕ)
  deriving DecidableEq, Repr

namespace Fs

def node (fs : Fs) (i : Ino) : Option Node := fs.nodes[i]?.join

def entries (fs : Fs) (i : Ino) : Except Errno (Table String Ino) :=
  match fs.node i with
  | some (.dir t) => .ok t
  | some _ => .error .notdir
  | none => .error .noent

/-- What a directory lists under a name. -/
def child (fs : Fs) (i : Ino) (n : String) : Option Ino :=
  match fs.node i with
  | some (.dir t) => t.get? n
  | _ => none

/-- What the names lead to, one directory after the other. -/
def follow (fs : Fs) (i : Ino) (names : List String) : Option Ino := names.foldlM fs.child i

/-! ### Changes -/

def set (fs : Fs) (i : Ino) (x : Option Node) : Fs := ⟨fs.nodes.set i x⟩

/-- A new inode, listed in a directory. -/
def create (fs : Fs) (d : Ino) (t : Table String Ino) (n : String) (x : Node) : Fs :=
  ⟨fs.nodes.set d (some (.dir (t.insert n fs.nodes.length))) ++ [some x]⟩

/-! ### Paths -/

/-- One piece of a path. -/
def step (fs : Fs) (i : Ino) : Piece → Except Errno Ino
  | .empty | .dot => do
    let _ ← fs.entries i
    pure i
  | .dotdot => .error .xdev
  | .name n => do
    let t ← fs.entries i
    match t.get? n with
    | none => .error .noent
    | some j =>
      match fs.node j with
      | some (.link _) => .error .loop
      | _ => .ok j

def walk (fs : Fs) (i : Ino) (pieces : List Piece) : Except Errno Ino := pieces.foldlM fs.step i

end Fs

/-- What a file is opened for. -/
inductive Mode
  | read
  | write (append : Bool)
  | directory
  deriving DecidableEq, Repr

def Mode.writes : Mode → Bool
  | .write _ => true
  | _ => false

/-- `fstatat` without the time. -/
structure Stat where
  isDir : Bool
  isSymlink : Bool
  isFile : Bool
  deriving DecidableEq, Repr

namespace Fs

/-- `openat2`; to write makes the file, and empties it unless it is to append. -/
def openat2 (fs : Fs) (dfd : Ino) (pieces : List Piece) (mode : Mode) : Except Errno (Ino × Fs) :=
  let trimmed := pieces.rdropWhile (· = .empty)
  let slash : Bool := trimmed.length < pieces.length
  match trimmed.getLast? with
  | some (.name n) => do
    let parent ← fs.walk dfd trimmed.dropLast
    let t ← fs.entries parent
    if slash && mode.writes then .error .isdir
    else match t.get? n with
      | none =>
        if mode.writes then .ok (fs.nodes.length, fs.create parent t n (.file []))
        else .error .noent
      | some j =>
        match fs.node j with
        | some (.link _) => .error .loop
        | some (.dir _) => if mode.writes then .error .isdir else .ok (j, fs)
        | some (.file _) =>
          if slash || mode = .directory then .error .notdir
          else .ok (j, if mode = .write false then fs.set j (some (.file [])) else fs)
        | none => .error .noent
  | _ => do
    let d ← fs.walk dfd trimmed
    let _ ← fs.entries d
    if pieces = [] then .error .noent
    else if mode.writes then .error .isdir
    else .ok (d, fs)

def mkdirat (fs : Fs) (dfd : Ino) (piece : Piece) : Except Errno (Unit × Fs) := do
  let t ← fs.entries dfd
  match piece with
  | .name n =>
    match t.get? n with
    | some _ => .error .exist
    | none => .ok ((), fs.create dfd t n (.dir .empty))
  | _ => .error .exist

/-- `unlinkat`, of a directory or of anything else. -/
def unlinkat (fs : Fs) (dfd : Ino) (n : String) (dir : Bool) : Except Errno (Unit × Fs) := do
  let t ← fs.entries dfd
  match t.get? n with
  | none => .error .noent
  | some j =>
    match fs.node j with
    | some (.dir t') =>
      if dir then
        if t'.entries.isEmpty then
          .ok ((), (fs.set dfd (some (.dir (t.erase n)))).set j none)
        else .error .notempty
      else .error .isdir
    | _ => if dir then .error .notdir else .ok ((), fs.set dfd (some (.dir (t.erase n))))

/-- What a rename asks of what is in its way. -/
def makesWay (fs : Fs) (j k : Ino) : Except Errno Unit :=
  match fs.node j, fs.node k with
  | some (.dir _), some (.dir t) => if t.entries.isEmpty then .ok () else .error .notempty
  | some (.dir _), _ => .error .notdir
  | _, some (.dir _) => .error .isdir
  | _, _ => .ok ()

/-- An inode is listed under a name, in place of what was there. -/
def relist (fs : Fs) (d : Ino) (n : String) (j : Ino) (old : Option Ino) :
    Except Errno (Unit × Fs) := do
  let t ← fs.entries d
  let fs := fs.set d (some (.dir (t.insert n j)))
  match old with
  | none => .ok ((), fs)
  | some k =>
    match fs.node k with
    | some (.dir _) => .ok ((), fs.set k none)
    | _ => .ok ((), fs)

/-- `renameat`; that a directory is not moved below itself is one of the reasons of its own for
which a call fails. -/
def renameat (fs : Fs) (d : Ino) (n : String) (d' : Ino) (n' : String) :
    Except Errno (Unit × Fs) := do
  let t ← fs.entries d
  let t' ← fs.entries d'
  match t.get? n with
  | none => .error .noent
  | some j =>
    let fs' := fs.set d (some (.dir (t.erase n)))
    match t'.get? n' with
    | none => fs'.relist d' n' j none
    | some k =>
      if k = j then .ok ((), fs)
      else do
        fs.makesWay j k
        fs'.relist d' n' j (some k)

def kind : Option Node → Option Stat
  | some (.dir _) => some ⟨true, false, false⟩
  | some (.link _) => some ⟨false, true, false⟩
  | some (.file _) => some ⟨false, false, true⟩
  | none => none

def fstatat (fs : Fs) (dfd : Ino) (n : String) : Except Errno (Stat × Fs) := do
  let t ← fs.entries dfd
  match (t.get? n).bind fun j => kind (fs.node j) with
  | some st => .ok (st, fs)
  | none => .error .noent

/-- What is in a directory, without `.` and `..`. -/
def readdir (fs : Fs) (fd : Ino) : Except Errno (List (String × Option Stat) × Fs) := do
  let t ← fs.entries fd
  .ok (t.entries.map fun x => (x.1, kind (fs.node x.2)), fs)

def read (fs : Fs) (fd : Ino) : Except Errno (List UInt8 × Fs) :=
  match fs.node fd with
  | some (.file bytes) => .ok (bytes, fs)
  | _ => .error .isdir

/-- At the end of the file, or over its beginning. -/
def write (fs : Fs) (fd : Ino) (append : Bool) (bytes : List UInt8) : Except Errno (Unit × Fs) :=
  match fs.node fd with
  | some (.file old) =>
    .ok ((), fs.set fd (some (.file (if append then old ++ bytes
      else bytes ++ old.drop bytes.length))))
  | _ => .error .isdir

end Fs

/-! ### Programs -/

/-- What happens before a call: what the others did since the last one, and whether the call fails
for a reason of its own. -/
structure Meanwhile where
  act : Fs → Fs
  fault : Option Errno

/-- A call, by what it found and what it left. -/
structure Moment where
  before : Fs
  after : Fs

/-- The file system, what is ahead of the calls to come, and the calls so far. -/
structure World where
  fs : Fs
  ahead : ℕ → Meanwhile
  log : List Moment

abbrev Sys := ExceptT Errno (StateM World)

/-- The file system that the next call finds. -/
def World.found (w : World) : Fs := (w.ahead w.log.length).act w.fs

/-- The world after a call. -/
def World.passed (w : World) (fs : Fs) : World :=
  { w with fs, log := w.log ++ [⟨w.found, fs⟩] }

@[simp] theorem World.passed_fs (w : World) (fs : Fs) : (w.passed fs).fs = fs := rfl

/-- One call. -/
def call {α : Type} (run : Fs → Except Errno (α × Fs)) : Sys α := fun w =>
  match (w.ahead w.log.length).fault with
  | some e => (.error e, w.passed w.found)
  | none =>
    match run w.found with
    | .error e => (.error e, w.passed w.found)
    | .ok (a, fs) => (.ok a, w.passed fs)

/-- What a program comes to, and the world it leaves. -/
def outcome {α : Type} (x : Sys α) (w : World) : Except Errno α × World := x w

/-- A program whose error is a value. -/
def attempt {α : Type} (x : Sys α) : Sys (Except Errno α) := fun w =>
  (.ok (outcome x w).1, (outcome x w).2)

/-- A check that makes no call. -/
def check {α : Type} (r : Except Errno α) : Sys α := fun w => (r, w)

theorem outcome_bind {α β : Type} (x : Sys α) (f : α → Sys β) (w : World) :
    outcome (x >>= f) w = match outcome x w with
      | (.ok a, w') => outcome (f a) w'
      | (.error e, w') => (.error e, w') := by
  change (ExceptT.bind x f : Sys β) w = _
  unfold ExceptT.bind ExceptT.mk
  change (match x w with | (r, w') => ExceptT.bindCont f r w') = _
  rcases h : x w with ⟨r, w'⟩
  rw [outcome, h]
  cases r <;> rfl

@[simp] theorem outcome_pure {α : Type} (a : α) (w : World) :
    outcome (pure a : Sys α) w = (.ok a, w) := rfl

@[simp] theorem outcome_throw {α : Type} (e : Errno) (w : World) :
    outcome (throw e : Sys α) w = (.error e, w) := rfl

@[simp] theorem outcome_check {α : Type} (r : Except Errno α) (w : World) :
    outcome (check r) w = (r, w) := rfl

/-- What a program comes to when it comes to something. -/
theorem exists_of_bind_ok {α β : Type} {x : Sys α} {f : α → Sys β} {w : World} {b : β}
    (h : (outcome (x >>= f) w).1 = .ok b) : ∃ a, (outcome x w).1 = .ok a ∧
      (outcome (f a) (outcome x w).2).1 = .ok b ∧
      (outcome (x >>= f) w).2 = (outcome (f a) (outcome x w).2).2 := by
  rw [outcome_bind] at h ⊢
  rcases hout : outcome x w with ⟨r, w'⟩
  rw [hout] at h
  cases r with
  | error e => cases h
  | ok a => exact ⟨a, rfl, h, rfl⟩

theorem exists_of_check_bind_ok {α β : Type} {r : Except Errno α} {f : α → Sys β} {w : World}
    {b : β} (h : (outcome (check r >>= f) w).1 = .ok b) : ∃ a, r = .ok a ∧
      (outcome (f a) w).1 = .ok b ∧ (outcome (check r >>= f) w).2 = (outcome (f a) w).2 :=
  exists_of_bind_ok h

theorem outcome_bind_of_ok {α β : Type} {x : Sys α} {f : α → Sys β} {w : World} {a : α}
    (h : (outcome x w).1 = .ok a) : outcome (x >>= f) w = outcome (f a) (outcome x w).2 := by
  rw [outcome_bind]
  rcases hout : outcome x w with ⟨r, w'⟩
  rw [hout] at h
  obtain rfl : r = .ok a := h
  rfl

theorem outcome_check_bind_of_ok {α β : Type} {r : Except Errno α} {f : α → Sys β} {w : World}
    {a : α} (h : r = .ok a) : outcome (check r >>= f) w = outcome (f a) w :=
  outcome_bind_of_ok (x := check r) h

/-- Nobody else acts, and no call fails but for what it finds. -/
def World.Quiet (w : World) : Prop := ∀ k, w.ahead k = ⟨id, none⟩

theorem outcome_call_of_quiet {α : Type} {run : Fs → Except Errno (α × Fs)} {w : World}
    (hw : w.Quiet) : outcome (call run) w = match run w.fs with
      | .error e => (.error e, w.passed w.fs)
      | .ok (a, fs) => (.ok a, w.passed fs) := by
  have hfound : w.found = w.fs := by
    rw [World.found, hw]
    rfl
  have hfault : (w.ahead w.log.length).fault = none := by rw [hw]
  rw [outcome, call, hfault, hfound]
  rfl

theorem exists_of_call_ok {α : Type} {run : Fs → Except Errno (α × Fs)} {w : World} {a : α}
    (hw : w.Quiet) (h : (outcome (call run) w).1 = .ok a) :
    ∃ fs, run w.fs = .ok (a, fs) ∧ (outcome (call run) w).2 = w.passed fs := by
  rw [outcome_call_of_quiet hw] at h ⊢
  split at h
  · cases h
  · rename_i b fs hrun
    cases h
    rw [hrun]
    exact ⟨fs, rfl, rfl⟩

theorem World.Quiet.passed {w : World} (hw : w.Quiet) (fs : Fs) : (w.passed fs).Quiet := hw

/-! ### What leads where -/

theorem bind_eq_ok {ε α β : Type} {x : Except ε α} {f : α → Except ε β} {b : β} :
    x >>= f = .ok b ↔ ∃ a, x = .ok a ∧ f a = .ok b := by
  cases x with
  | error e =>
    constructor
    · intro h
      cases h
    · rintro ⟨a, h, -⟩
      cases h
  | ok a =>
    constructor
    · intro h
      exact ⟨a, rfl, h⟩
    · rintro ⟨a', h, hb⟩
      cases h
      exact hb

namespace Fs

variable {fs fs' : Fs} {i j d : Ino} {t : Table String Ino} {n : String}

theorem entries_eq_ok : fs.entries i = .ok t ↔ fs.node i = some (.dir t) := by
  rw [entries]
  split
  · rename_i t' h
    rw [h, Except.ok.injEq, Option.some.injEq, Node.dir.injEq]
  · rename_i hne h
    constructor
    · intro heq
      cases heq
    · intro heq
      exact absurd (Option.some.inj (h.symm.trans heq)) (hne t)
  · rename_i h
    constructor
    · intro heq
      cases heq
    · intro heq
      cases h.symm.trans heq

theorem child_of_dir (h : fs.node i = some (.dir t)) : fs.child i n = t.get? n := by
  rw [child, h]

theorem child_eq_some : fs.child i n = some j ↔
    ∃ t, fs.node i = some (.dir t) ∧ t.get? n = some j := by
  rw [child]
  split
  · rename_i t h
    constructor
    · intro hj
      exact ⟨t, h, hj⟩
    · rintro ⟨t', h', hj⟩
      cases h.symm.trans h'
      exact hj
  · rename_i h
    constructor
    · intro heq
      cases heq
    · rintro ⟨t', h', -⟩
      exact absurd h' (h t')

@[simp] theorem follow_nil : fs.follow i [] = some i := rfl

theorem follow_cons {names : List String} :
    fs.follow i (n :: names) = (fs.child i n).bind fun j => fs.follow j names := rfl

theorem follow_append {names names' : List String} :
    fs.follow i (names ++ names') = (fs.follow i names).bind fun j => fs.follow j names' := by
  rw [follow, List.foldlM_append]
  rfl

theorem step_trivial_eq_ok {piece : Piece} (hp : piece.isTrivial = true) :
    fs.step i piece = .ok j ↔ j = i ∧ ∃ t, fs.node i = some (.dir t) := by
  have hstep : fs.step i piece = fs.entries i >>= fun _ => pure i := by
    cases piece <;> first | rfl | cases hp
  rw [hstep, bind_eq_ok]
  constructor
  · rintro ⟨t, ht, h⟩
    exact ⟨(Except.ok.inj h).symm, t, entries_eq_ok.mp ht⟩
  · rintro ⟨rfl, t, ht⟩
    exact ⟨t, entries_eq_ok.mpr ht, rfl⟩

theorem step_name_eq_ok : fs.step i (.name n) = .ok j ↔
    fs.child i n = some j ∧ ∀ target, fs.node j ≠ some (.link target) := by
  rw [step, bind_eq_ok, child_eq_some]
  constructor
  · rintro ⟨t, ht, h⟩
    split at h
    · cases h
    · rename_i k hk
      split at h
      · cases h
      · rename_i hlink
        obtain rfl := Except.ok.inj h
        exact ⟨⟨t, entries_eq_ok.mp ht, hk⟩, hlink⟩
  · rintro ⟨⟨t, ht, hj⟩, hlink⟩
    refine ⟨t, entries_eq_ok.mpr ht, ?_⟩
    simp only [hj]

theorem walk_cons_eq_ok {piece : Piece} {pieces : List Piece} :
    fs.walk i (piece :: pieces) = .ok j ↔
      ∃ k, fs.step i piece = .ok k ∧ fs.walk k pieces = .ok j := by
  rw [walk, List.foldlM_cons, bind_eq_ok]
  rfl

/-- A path that is walked is a path of names. -/
theorem exists_follow_of_walk {pieces : List Piece} (h : fs.walk i pieces = .ok j) :
    ∃ names, fs.follow i names = some j := by
  induction pieces generalizing i with
  | nil => cases h; exact ⟨[], rfl⟩
  | cons piece pieces ih =>
    obtain ⟨k, hk, h⟩ := walk_cons_eq_ok.mp h
    obtain ⟨names, hnames⟩ := ih h
    cases piece with
    | empty =>
      obtain ⟨rfl, -⟩ := (step_trivial_eq_ok rfl).mp hk
      exact ⟨names, hnames⟩
    | dot =>
      obtain ⟨rfl, -⟩ := (step_trivial_eq_ok rfl).mp hk
      exact ⟨names, hnames⟩
    | dotdot => cases hk
    | name n =>
      obtain ⟨hchild, -⟩ := step_name_eq_ok.mp hk
      exact ⟨n :: names, by rw [follow_cons, hchild]; exact hnames⟩

/-! ### What a change leaves -/

theorem node_eq_none_of_le (h : fs.nodes.length ≤ i) : fs.node i = none := by
  rw [node, List.getElem?_eq_none h]
  rfl

theorem lt_of_node {x : Node} (h : fs.node i = some x) : i < fs.nodes.length := by
  by_contra hle
  rw [node_eq_none_of_le (not_lt.mp hle)] at h
  cases h

theorem node_set {x : Option Node} {y : Node} (h : fs.node d = some y) :
    (fs.set d x).node i = if i = d then x else fs.node i := by
  have hd := lt_of_node h
  rw [node, set, List.getElem?_set]
  rcases eq_or_ne i d with rfl | hne
  · rw [if_pos rfl, if_pos hd, if_pos rfl]
    rfl
  · rw [if_neg hne.symm, if_neg hne]
    rfl

theorem node_set_of_ne {x : Option Node} (h : i ≠ d) : (fs.set d x).node i = fs.node i := by
  rw [node, set, List.getElem?_set, if_neg h.symm]
  rfl

theorem node_create {x : Node} (hd : fs.node d = some (.dir t)) :
    (fs.create d t n x).node i = if i = d then some (.dir (t.insert n fs.nodes.length))
      else if i = fs.nodes.length then some x else fs.node i := by
  have hlt := lt_of_node hd
  change ((fs.nodes.set d _ ++ [some x])[i]?).join = _
  rw [List.getElem?_append, List.length_set, List.getElem?_set]
  rcases lt_trichotomy i fs.nodes.length with hi | hi | hi
  · rw [if_pos hi, if_neg hi.ne]
    rcases eq_or_ne i d with rfl | hne
    · rw [if_pos rfl, if_pos rfl, if_pos hi]
      rfl
    · rw [if_neg hne.symm, if_neg hne]
      rfl
  · rw [if_neg hi.not_lt, if_neg (hi ▸ hlt.ne'), if_pos hi, hi, Nat.sub_self]
    rfl
  · rw [if_neg hi.not_gt, if_neg (hlt.trans hi).ne', if_neg hi.ne', node_eq_none_of_le hi.le,
      List.getElem?_eq_none (Nat.sub_pos_of_lt hi)]
    rfl

/-- An inode that lists nothing. -/
def IsLeaf (x : Node) : Prop := ∀ t, x = .dir t → ∀ n, t.get? n = none

theorem isLeaf_file (bytes : List UInt8) : IsLeaf (.file bytes) := by
  intro t h
  cases h

theorem isLeaf_empty : IsLeaf (.dir .empty) := by
  intro t h n
  cases h
  rfl

theorem child_create {x : Node} {m : String} (hx : IsLeaf x) (hd : fs.node d = some (.dir t)) :
    (fs.create d t n x).child i m =
      if i = d ∧ m = n then some fs.nodes.length else fs.child i m := by
  rw [child, node_create hd]
  rcases eq_or_ne i d with rfl | hne
  · rw [if_pos rfl, child_of_dir hd]
    simp only [true_and]
    exact Table.get?_insert
  · rw [if_neg hne, if_neg (mt And.left hne)]
    rcases eq_or_ne i fs.nodes.length with rfl | hlen
    · rw [if_pos rfl, child, node_eq_none_of_le le_rfl]
      cases x with
      | dir t' => exact hx t' rfl m
      | file bytes => rfl
      | link target => rfl
    · rw [if_neg hlen, child]

theorem child_set_file {bytes bytes' : List UInt8} {m : String}
    (h : fs.node j = some (.file bytes)) :
    (fs.set j (some (.file bytes'))).child i m = fs.child i m := by
  rw [child, child, node_set h]
  rcases eq_or_ne i j with rfl | hne
  · rw [if_pos rfl, h]
  · rw [if_neg hne]

theorem follow_congr {names : List String} (h : ∀ i n, fs'.child i n = fs.child i n) :
    fs'.follow i names = fs.follow i names := by
  rw [follow, follow, funext₂ h]

theorem follow_mono {names : List String}
    (h : ∀ i n j, fs.child i n = some j → fs'.child i n = some j)
    (hi : fs.follow i names = some j) : fs'.follow i names = some j := by
  induction names generalizing i with
  | nil => exact hi
  | cons n names ih =>
    rw [follow_cons] at hi ⊢
    obtain ⟨k, hk, hi⟩ := Option.bind_eq_some_iff.mp hi
    rw [h i n k hk]
    exact ih hi

/-- The inode that is new is the only one that more paths lead to. -/
theorem follow_create {x : Node} {names : List String} (hx : IsLeaf x)
    (hd : fs.node d = some (.dir t)) (h : (fs.create d t n x).follow i names = some j) :
    fs.follow i names = some j ∨ j = fs.nodes.length := by
  induction names generalizing i with
  | nil => exact .inl h
  | cons m names ih =>
    rw [follow_cons, child_create hx hd] at h
    split at h
    · right
      cases names with
      | nil => exact (Option.some.inj h).symm
      | cons m' names =>
        rw [Option.bind_some, follow_cons, child_create hx hd,
          if_neg (mt And.left (lt_of_node hd).ne'), child, node_eq_none_of_le le_rfl] at h
        cases h
    · obtain ⟨k, hk, h⟩ := Option.bind_eq_some_iff.mp h
      refine (ih h).imp_left fun hfollow => ?_
      rw [follow_cons, hk]
      exact hfollow

/-! ### What leads somewhere still does -/

/-- Whatever is walked in the one file system is walked in the other. -/
structure Extends (fs fs' : Fs) : Prop where
  child : ∀ i n j, fs.child i n = some j → fs'.child i n = some j
  link : ∀ i target, fs'.node i = some (.link target) → fs.node i = some (.link target)
  dir : ∀ i, (∃ t, fs.node i = some (.dir t)) → ∃ t, fs'.node i = some (.dir t)

namespace Extends

theorem trans {fs'' : Fs} (h : Extends fs fs') (h' : Extends fs' fs'') : Extends fs fs'' where
  child i n j hj := h'.child i n j (h.child i n j hj)
  link i target hi := h.link i target (h'.link i target hi)
  dir i hi := h'.dir i (h.dir i hi)

theorem walk (h : Extends fs fs') {pieces : List Piece} (hj : fs.walk i pieces = .ok j) :
    fs'.walk i pieces = .ok j := by
  induction pieces generalizing i with
  | nil => exact hj
  | cons piece pieces ih =>
    obtain ⟨k, hk, hj⟩ := walk_cons_eq_ok.mp hj
    refine walk_cons_eq_ok.mpr ⟨k, ?_, ih hj⟩
    cases piece with
    | empty =>
      rw [step_trivial_eq_ok rfl] at hk ⊢
      exact hk.imp_right (h.dir i)
    | dot =>
      rw [step_trivial_eq_ok rfl] at hk ⊢
      exact hk.imp_right (h.dir i)
    | dotdot => cases hk
    | name n =>
      obtain ⟨hchild, hlink⟩ := step_name_eq_ok.mp hk
      exact step_name_eq_ok.mpr ⟨h.child i n k hchild,
        fun target htarget => hlink target (h.link k target htarget)⟩

theorem set_file {bytes bytes' : List UInt8} (h : fs.node j = some (.file bytes)) :
    Extends fs (fs.set j (some (.file bytes'))) where
  child i n k hk := (child_set_file h).trans hk
  link i target hi := by
    rw [node_set h] at hi
    split at hi
    · cases hi
    · exact hi
  dir i := by
    rintro ⟨t, ht⟩
    refine ⟨t, ?_⟩
    rw [node_set h, if_neg, ht]
    rintro rfl
    cases h.symm.trans ht

theorem create_file {bytes : List UInt8} (hd : fs.node d = some (.dir t)) (hn : t.get? n = none) :
    Extends fs (fs.create d t n (.file bytes)) where
  child i m j hj := by
    rw [child_create (isLeaf_file bytes) hd, if_neg, hj]
    rintro ⟨rfl, rfl⟩
    rw [child_of_dir hd, hn] at hj
    cases hj
  link i target hi := by
    rw [node_create hd] at hi
    split at hi
    · cases hi
    · split at hi
      · cases hi
      · exact hi
  dir i := by
    rintro ⟨t', ht'⟩
    rw [node_create hd]
    split
    · exact ⟨_, rfl⟩
    · rw [if_neg (lt_of_node ht').ne]
      exact ⟨t', ht'⟩

/-- A directory that is gone leads nowhere. -/
theorem set_none (h : fs.node j = some (.dir t)) : Extends (fs.set j none) fs := by
  have hnode : ∀ i, (fs.set j none).node i = if i = j then none else fs.node i :=
    fun _ => node_set h
  constructor
  · intro i n k hk
    obtain ⟨t', ht', hn⟩ := child_eq_some.mp hk
    rw [hnode] at ht'
    split at ht'
    · cases ht'
    · exact child_eq_some.mpr ⟨t', ht', hn⟩
  · intro i target hi
    rw [hnode, if_neg, hi]
    rintro rfl
    cases h.symm.trans hi
  · rintro i ⟨t', ht'⟩
    rw [hnode] at ht'
    split at ht'
    · cases ht'
    · exact ⟨t', ht'⟩

end Extends

theorem walk_append_eq_ok {a b : List Piece} :
    fs.walk i (a ++ b) = .ok j ↔ ∃ k, fs.walk i a = .ok k ∧ fs.walk k b = .ok j := by
  rw [walk, List.foldlM_append, bind_eq_ok]
  rfl

theorem walk_singleton {piece : Piece} : fs.walk i [piece] = fs.step i piece := by
  rw [walk, List.foldlM_cons]
  cases fs.step i piece <;> rfl

theorem dropLast_concat_of_getLast? {pieces : List Piece} {piece : Piece}
    (h : pieces.getLast? = some piece) : pieces = pieces.dropLast ++ [piece] := by
  obtain ⟨front, rfl⟩ := List.getLast?_eq_some_iff.mp h
  rw [List.dropLast_concat]

/-- A file is opened for reading where the walk leads to it. -/
theorem openat2_read {pieces front : List Piece} {bytes : List UInt8}
    (hpieces : pieces = front ++ [.name n]) (hwalk : fs.walk d front = .ok i)
    (hchild : fs.child i n = some j) (hfile : fs.node j = some (.file bytes)) :
    fs.openat2 d pieces .read = .ok (j, fs) := by
  obtain ⟨t, ht, hn⟩ := child_eq_some.mp hchild
  have htrim : pieces.rdropWhile (· = .empty) = pieces := by
    rw [hpieces, List.rdropWhile_concat_neg]
    simp
  rw [openat2, htrim, hpieces, List.getLast?_concat, List.dropLast_concat]
  simp [hwalk, entries_eq_ok.mpr ht, hn, hfile, Mode.writes, bind, Except.bind]

/-- What opening a file for writing leaves. -/
theorem exists_of_openat2_write {pieces : List Piece} {append : Bool}
    (h : fs.openat2 d pieces (.write append) = .ok (j, fs')) :
    ∃ front n i bytes, pieces = front ++ [.name n] ∧ fs.walk d front = .ok i ∧ Extends fs fs' ∧
      fs'.child i n = some j ∧ fs'.node j = some (.file bytes) ∧ (append = false → bytes = []) := by
  rw [openat2] at h
  split at h
  · rename_i n hlast
    obtain ⟨parent, hparent, h⟩ := bind_eq_ok.mp h
    obtain ⟨t, ht, h⟩ := bind_eq_ok.mp h
    rw [entries_eq_ok] at ht
    split at h
    · cases h
    rename_i hslash
    have htrim : pieces.rdropWhile (· = .empty) = pieces := by
      refine (List.rdropWhile_prefix _ _).eq_of_length_le (not_lt.mp fun hlt => hslash ?_)
      rw [decide_eq_true hlt]
      rfl
    rw [htrim] at hlast hparent
    have hpieces := dropLast_concat_of_getLast? hlast
    split at h
    · rename_i hn
      split at h
      · cases h
        refine ⟨_, n, parent, [], hpieces, hparent, .create_file ht hn, ?_, ?_, fun _ => rfl⟩
        · rw [child_create (isLeaf_file []) ht, if_pos ⟨rfl, rfl⟩]
        · rw [node_create ht, if_neg (lt_of_node ht).ne', if_pos rfl]
      · cases h
    · rename_i k hk
      have hchild : fs.child parent n = some k := (child_of_dir ht).trans hk
      split at h
      · cases h
      · cases h
      · rename_i bytes hfile
        split at h
        · cases h
        · cases h
          cases append with
          | false =>
            refine ⟨_, n, parent, [], hpieces, hparent, .set_file hfile,
              (child_set_file hfile).trans hchild, ?_, fun _ => rfl⟩
            change (fs.set j _).node j = _
            rw [node_set hfile, if_pos rfl]
          | true =>
            exact ⟨_, n, parent, bytes, hpieces, hparent, ⟨fun _ _ _ h => h, fun _ _ h => h,
              fun _ h => h⟩, hchild, hfile, fun h => by cases h⟩
      · cases h
  · obtain ⟨e, -, h⟩ := bind_eq_ok.mp h
    obtain ⟨t, -, h⟩ := bind_eq_ok.mp h
    split at h <;> cases h

/-- A directory is opened where the walk leads to it. -/
theorem openat2_directory_eq_ok {pieces : List Piece} :
    fs.openat2 d pieces .directory = .ok (j, fs') ↔ pieces ≠ [] ∧ fs' = fs ∧
      fs.walk d (pieces.rdropWhile (· = .empty)) = .ok j ∧ ∃ t, fs.node j = some (.dir t) := by
  rw [openat2]
  split
  · rename_i n hlast
    have htrim := dropLast_concat_of_getLast? hlast
    have hne : pieces ≠ [] := by
      rintro rfl
      cases hlast
    rw [bind_eq_ok]
    constructor
    · rintro ⟨parent, hparent, h⟩
      obtain ⟨t, ht, h⟩ := bind_eq_ok.mp h
      rw [entries_eq_ok] at ht
      split at h
      · cases h
      split at h
      · cases h
      rename_i k hk
      have hstep : (∀ target, fs.node k ≠ some (.link target)) →
          fs.walk d (pieces.rdropWhile (· = .empty)) = .ok k := by
        intro hlink
        rw [htrim, walk_append_eq_ok]
        refine ⟨parent, hparent, ?_⟩
        rw [walk_singleton, step_name_eq_ok]
        exact ⟨(child_of_dir ht).trans hk, hlink⟩
      split at h
      · cases h
      · rename_i t' hdir
        cases h
        exact ⟨hne, rfl, hstep (by rw [hdir]; intro target h; cases h), t', hdir⟩
      · simp at h
      · cases h
    · rintro ⟨-, rfl, hwalk, t', hdir⟩
      rw [htrim, walk_append_eq_ok] at hwalk
      obtain ⟨parent, hparent, hstep⟩ := hwalk
      rw [walk_singleton, step_name_eq_ok] at hstep
      obtain ⟨t, ht, hn⟩ := child_eq_some.mp hstep.1
      refine ⟨parent, hparent, ?_⟩
      simp [entries_eq_ok.mpr ht, hn, hdir, Mode.writes, bind, Except.bind]
  · rw [bind_eq_ok]
    constructor
    · rintro ⟨e, he, h⟩
      obtain ⟨t, ht, h⟩ := bind_eq_ok.mp h
      split at h
      · cases h
      · rename_i hne
        cases h
        exact ⟨hne, rfl, he, t, entries_eq_ok.mp ht⟩
    · rintro ⟨hne, rfl, hwalk, t, ht⟩
      refine ⟨j, hwalk, ?_⟩
      simp [entries_eq_ok.mpr ht, hne, Mode.writes, bind, Except.bind]

/-- What a removal leaves: one entry less. -/
theorem extends_of_unlinkat {dir : Bool} (h : fs.unlinkat d n dir = .ok ((), fs')) :
    Extends fs' fs ∧ fs'.child d n = none := by
  obtain ⟨t, ht, h⟩ := bind_eq_ok.mp h
  rw [entries_eq_ok] at ht
  have hnode : ∀ i, (fs.set d (some (.dir (t.erase n)))).node i =
      if i = d then some (.dir (t.erase n)) else fs.node i := fun _ => node_set ht
  have herase : Extends (fs.set d (some (.dir (t.erase n)))) fs := by
    constructor
    · intro i m j hj
      rw [child, hnode] at hj
      split at hj
      · rename_i t' heq
        split at heq
        · rename_i hid
          cases heq
          rw [Table.get?_erase] at hj
          split at hj
          · cases hj
          · rw [hid, child_of_dir ht, hj]
        · rw [child_of_dir heq, hj]
      · cases hj
    · intro i target hi
      rw [hnode, if_neg, hi]
      rintro rfl
      cases ht.symm.trans hi
    · rintro i ⟨t', ht'⟩
      rw [hnode] at ht'
      split at ht'
      · rename_i hid
        exact ⟨t, hid ▸ ht⟩
      · exact ⟨t', ht'⟩
  have hgone : (fs.set d (some (.dir (t.erase n)))).child d n = none := by
    rw [child_of_dir ((hnode d).trans (if_pos rfl)), Table.get?_erase, if_pos rfl]
  split at h
  · cases h
  · rename_i j hj
    split at h
    · rename_i t' hdir
      split at h
      · split at h
        · cases h
          obtain ⟨t'', hdir'⟩ : ∃ t'', (fs.set d (some (.dir (t.erase n)))).node j =
              some (.dir t'') := by
            rw [hnode]
            split
            · exact ⟨_, rfl⟩
            · exact ⟨t', hdir⟩
          have hset := Extends.set_none hdir'
          refine ⟨hset.trans herase, Option.eq_none_iff_forall_ne_some.mpr fun k hk => ?_⟩
          rw [hset.child d n k hk] at hgone
          cases hgone
        · cases h
      · cases h
    · split at h
      · cases h
      · cases h
        exact ⟨herase, hgone⟩

end Fs

/-! ### What is inside -/

section

variable (top root : Ino)

/-- Beneath the root, or beneath something that no path leads to any more. -/
def Inside (fs : Fs) (i : Ino) : Prop :=
  ∃ d names, (d = root ∨ ∀ path, fs.follow top path ≠ some d) ∧ fs.follow d names = some i

/-- The others let nothing out. -/
def Sheltered (ahead : ℕ → Meanwhile) : Prop :=
  ∀ k fs i, Inside top root fs i → Inside top root ((ahead k).act fs) i

/-- A call that changes only what is inside, or new. -/
def Moment.Within (m : Moment) : Prop :=
  ∀ i, m.after.node i ≠ m.before.node i → m.before.node i = none ∨ Inside top root m.before i

def Held (held : List Ino) (fs : Fs) : Prop := ∀ i ∈ held, Inside top root fs i

/-- From a world in which what is held is inside, the program changes only what is inside, and what
it comes to is as said. -/
def Safe {α : Type} (held : List Ino) (x : Sys α) (Q : α → Fs → Prop) : Prop :=
  ∀ w : World, Sheltered top root w.ahead → (∀ m ∈ w.log, m.Within top root) →
    Held top root held w.fs →
    (outcome x w).2.ahead = w.ahead ∧ (∀ m ∈ (outcome x w).2.log, m.Within top root) ∧
      ∀ a, (outcome x w).1 = .ok a → Q a (outcome x w).2.fs

end

section

variable {top root : Ino} {fs fs' : Fs} {i j d : Ino} {t : Table String Ino} {n : String}

theorem inside_root : Inside top root fs root := ⟨root, [], .inl rfl, rfl⟩

theorem Inside.follow {names : List String} (h : Inside top root fs i)
    (hj : fs.follow i names = some j) : Inside top root fs j := by
  obtain ⟨d, front, hd, hi⟩ := h
  refine ⟨d, front ++ names, hd, ?_⟩
  rw [Fs.follow_append, hi]
  exact hj

theorem Inside.child (h : Inside top root fs i) (hj : fs.child i n = some j) :
    Inside top root fs j := by
  have hfollow : fs.follow i [n] = some j := by
    rw [Fs.follow_cons, hj]
    rfl
  exact h.follow hfollow

/-- **A path leads nowhere else**: from inside, to what is inside. -/
theorem Inside.walk {pieces : List Piece} (h : Inside top root fs i)
    (hj : fs.walk i pieces = .ok j) : Inside top root fs j := by
  obtain ⟨names, hnames⟩ := Fs.exists_follow_of_walk hj
  exact h.follow hnames

theorem Inside.congr (hchild : ∀ i n, fs'.child i n = fs.child i n) (h : Inside top root fs i) :
    Inside top root fs' i := by
  obtain ⟨d, names, hd, hi⟩ := h
  refine ⟨d, names, hd.imp_right fun hpath path => ?_, ?_⟩
  · rw [Fs.follow_congr hchild]
    exact hpath path
  · rw [Fs.follow_congr hchild]
    exact hi

/-- What is inside stays inside when an inode is made. -/
theorem Inside.create {x : Node} (hx : Fs.IsLeaf x) (hd : fs.node d = some (.dir t))
    (hn : t.get? n = none) (hi : (fs.node i).isSome) (h : Inside top root fs i) :
    Inside top root (fs.create d t n x) i := by
  obtain ⟨e, names, he, hfollow⟩ := h
  refine ⟨e, names, he.imp_right fun hpath path hp => ?_, Fs.follow_mono ?_ hfollow⟩
  · obtain hp | rfl := Fs.follow_create hx hd hp
    · exact hpath path hp
    · -- what has not been made lists nothing
      have hnone : fs.node fs.nodes.length = none := Fs.node_eq_none_of_le le_rfl
      cases names with
      | nil =>
        obtain rfl := Option.some.inj hfollow
        rw [hnone] at hi
        cases hi
      | cons m names =>
        rw [Fs.follow_cons, Fs.child, hnone] at hfollow
        cases hfollow
  · intro k m j hj
    rw [Fs.child_create hx hd]
    split
    · rename_i hkm
      rw [hkm.1, hkm.2, Fs.child_of_dir hd, hn] at hj
      cases hj
    · exact hj

/-! ### What a call changes -/

theorem within_self : (Moment.mk fs fs).Within top root := fun _ h => absurd rfl h

theorem within_log {w : World} (h : w.log = []) : ∀ m ∈ w.log, m.Within top root := by
  rw [h]
  exact fun _ hm => absurd hm List.not_mem_nil

theorem within_of_changes {l : List Ino}
    (h : ∀ i, fs'.node i ≠ fs.node i → fs.node i = none ∨ i ∈ l)
    (hin : ∀ i ∈ l, Inside top root fs i) : (Moment.mk fs fs').Within top root :=
  fun i hi => (h i hi).imp_right (hin i)

theorem within_set (h : Inside top root fs d) (x : Option Node) :
    (Moment.mk fs (fs.set d x)).Within top root := by
  refine within_of_changes (l := [d]) (fun i hi => .inr ?_) (List.forall_mem_singleton.mpr h)
  rw [List.mem_singleton]
  by_contra hne
  exact hi (Fs.node_set_of_ne hne)

theorem within_create {x : Node} (hd : fs.node d = some (.dir t)) (h : Inside top root fs d) :
    (Moment.mk fs (fs.create d t n x)).Within top root := by
  refine within_of_changes (l := [d]) (fun i hi => ?_) (List.forall_mem_singleton.mpr h)
  rw [List.mem_singleton]
  by_contra hne
  obtain ⟨hnone, hid⟩ := not_or.mp hne
  rw [Fs.node_create hd, if_neg hid] at hi
  split at hi
  · rename_i hlen
    exact hnone (Fs.node_eq_none_of_le hlen.ge)
  · exact hi rfl

theorem within_set_set {x y : Option Node} (hd : Inside top root fs d) (hj : Inside top root fs j) :
    (Moment.mk fs ((fs.set d x).set j y)).Within top root := by
  refine within_of_changes (l := [d, j]) (fun i hi => .inr ?_)
    (List.forall_mem_cons.mpr ⟨hd, List.forall_mem_singleton.mpr hj⟩)
  rw [List.mem_pair]
  by_contra hne
  obtain ⟨hid, hij⟩ := not_or.mp hne
  exact hi ((Fs.node_set_of_ne hij).trans (Fs.node_set_of_ne hid))

/-- What is made is inside. -/
theorem inside_created {x : Node} (hx : Fs.IsLeaf x) (hd : fs.node d = some (.dir t))
    (hn : t.get? n = none) (h : Inside top root fs d) :
    Inside top root (fs.create d t n x) fs.nodes.length := by
  refine (h.create hx hd hn (by rw [hd]; rfl)).child (n := n) ?_
  rw [Fs.child_create hx hd, if_pos ⟨rfl, rfl⟩]

theorem within_openat2 {pieces : List Piece} {mode : Mode} (h : Inside top root fs d)
    (hopen : fs.openat2 d pieces mode = .ok (j, fs')) :
    (Moment.mk fs fs').Within top root ∧ Inside top root fs' j := by
  rw [Fs.openat2] at hopen
  split at hopen
  · obtain ⟨parent, hparent, hopen⟩ := bind_eq_ok.mp hopen
    obtain ⟨t, ht, hopen⟩ := bind_eq_ok.mp hopen
    have hin := h.walk hparent
    rw [Fs.entries_eq_ok] at ht
    split at hopen
    · cases hopen
    split at hopen
    · rename_i hn
      split at hopen
      · cases hopen
        exact ⟨within_create ht hin, inside_created (Fs.isLeaf_file []) ht hn hin⟩
      · cases hopen
    · rename_i k hk
      have hk : Inside top root fs k := hin.child ((Fs.child_of_dir ht).trans hk)
      split at hopen
      · cases hopen
      · split at hopen
        · cases hopen
        · cases hopen
          exact ⟨within_self, hk⟩
      · rename_i hfile
        split at hopen
        · cases hopen
        · cases hopen
          split
          · exact ⟨within_set hk _, hk.congr fun i n => Fs.child_set_file hfile⟩
          · exact ⟨within_self, hk⟩
      · cases hopen
  · obtain ⟨e, he, hopen⟩ := bind_eq_ok.mp hopen
    obtain ⟨t, -, hopen⟩ := bind_eq_ok.mp hopen
    split at hopen
    · cases hopen
    split at hopen
    · cases hopen
    · cases hopen
      exact ⟨within_self, h.walk he⟩

theorem openat2_eq_self {pieces : List Piece} {mode : Mode} (hmode : mode.writes = false)
    (hopen : fs.openat2 d pieces mode = .ok (j, fs')) : fs' = fs := by
  have hne : mode ≠ .write false := by
    rintro rfl
    cases hmode
  rw [Fs.openat2] at hopen
  split at hopen
  · obtain ⟨parent, -, hopen⟩ := bind_eq_ok.mp hopen
    obtain ⟨t, -, hopen⟩ := bind_eq_ok.mp hopen
    rw [hmode, Bool.and_false, if_neg Bool.false_ne_true] at hopen
    split at hopen
    · cases hopen
    · split at hopen
      · cases hopen
      · cases hopen
        rfl
      · split at hopen
        · cases hopen
        · cases hopen
          rfl
      · cases hopen
  · obtain ⟨e, -, hopen⟩ := bind_eq_ok.mp hopen
    obtain ⟨t, -, hopen⟩ := bind_eq_ok.mp hopen
    split at hopen
    · cases hopen
    · split at hopen
      · cases hopen
      · cases hopen
        rfl

theorem within_mkdirat {piece : Piece} (h : Inside top root fs d)
    (hmk : fs.mkdirat d piece = .ok ((), fs')) :
    (Moment.mk fs fs').Within top root ∧ Inside top root fs' d := by
  obtain ⟨t, ht, hmk⟩ := bind_eq_ok.mp hmk
  rw [Fs.entries_eq_ok] at ht
  split at hmk
  · split at hmk
    · cases hmk
    · rename_i hn
      cases hmk
      exact ⟨within_create ht h, h.create Fs.isLeaf_empty ht hn (by rw [ht]; rfl)⟩
  · cases hmk

theorem within_unlinkat {dir : Bool} (h : Inside top root fs d)
    (hun : fs.unlinkat d n dir = .ok ((), fs')) : (Moment.mk fs fs').Within top root := by
  obtain ⟨t, ht, hun⟩ := bind_eq_ok.mp hun
  rw [Fs.entries_eq_ok] at ht
  split at hun
  · cases hun
  · rename_i j hj
    have hj : Inside top root fs j := h.child ((Fs.child_of_dir ht).trans hj)
    split at hun
    · split at hun
      · split at hun
        · cases hun
          exact within_set_set h hj
        · cases hun
      · cases hun
    · split at hun
      · cases hun
      · cases hun
        exact within_set h _

theorem changed_relist {old : Option Ino} (h : fs.relist d n j old = .ok ((), fs')) :
    ∀ i, fs'.node i ≠ fs.node i → i ∈ d :: old.toList := by
  obtain ⟨t, -, h⟩ := bind_eq_ok.mp h
  intro i hi
  rw [List.mem_cons]
  by_contra hne
  obtain ⟨hid, hold⟩ := not_or.mp hne
  have hset : (fs.set d (some (.dir (t.insert n j)))).node i = fs.node i := Fs.node_set_of_ne hid
  cases old with
  | none =>
    cases h
    exact hi hset
  | some k =>
    rw [Option.toList_some, List.mem_singleton] at hold
    simp only at h
    split at h
    · cases h
      exact hi ((Fs.node_set_of_ne hold).trans hset)
    · cases h
      exact hi hset

theorem within_renameat {d' : Ino} {n' : String} (h : Inside top root fs d)
    (h' : Inside top root fs d') (hre : fs.renameat d n d' n' = .ok ((), fs')) :
    (Moment.mk fs fs').Within top root := by
  obtain ⟨t, ht, hre⟩ := bind_eq_ok.mp hre
  obtain ⟨t', ht', hre⟩ := bind_eq_ok.mp hre
  rw [Fs.entries_eq_ok] at ht ht'
  split at hre
  · cases hre
  · rename_i j _
    have hstep : ∀ {x old}, (fs.set d x).relist d' n' j old = .ok ((), fs') →
        ∀ i, fs'.node i ≠ fs.node i → fs.node i = none ∨ i ∈ d :: d' :: old.toList := by
      intro x old hrelist i hi
      right
      by_contra hne
      rw [List.mem_cons, not_or] at hne
      exact hi ((not_ne_iff.mp (mt (changed_relist hrelist i) hne.2)).trans
        (Fs.node_set_of_ne hne.1))
    split at hre
    · refine within_of_changes (hstep hre) ?_
      simp [h, h']
    · rename_i k hk
      split at hre
      · cases hre
        exact within_self
      · obtain ⟨-, -, hre⟩ := bind_eq_ok.mp hre
        refine within_of_changes (hstep hre) ?_
        simp [h, h', h'.child ((Fs.child_of_dir ht').trans hk)]

theorem within_write {append : Bool} {bytes : List UInt8} (h : Inside top root fs d)
    (hwrite : fs.write d append bytes = .ok ((), fs')) : (Moment.mk fs fs').Within top root := by
  rw [Fs.write] at hwrite
  split at hwrite
  · cases hwrite
    exact within_set h _
  · cases hwrite

/-! ### Programs that stay inside -/

section

variable {α β : Type} {held : List Ino} {x : Sys α} {Q : α → Fs → Prop}

theorem sheltered_of_quiet {w : World} (hw : w.Quiet) : Sheltered top root w.ahead := by
  intro k fs i hi
  rw [hw]
  exact hi

theorem Held.nil : Held top root [] fs := fun _ h => absurd h List.not_mem_nil

theorem Safe.bind {f : α → Sys β} {g : α → List Ino} {R : β → Fs → Prop}
    (hx : Safe top root held x Q) (hQ : ∀ a fs, Q a fs → Held top root (g a) fs)
    (hf : ∀ a fs, Q a fs → Safe top root (g a) (f a) R) :
    Safe top root held (x >>= f) R := by
  intro w hw hlog hheld
  obtain ⟨hahead, hwithin, hok⟩ := hx w hw hlog hheld
  rw [outcome_bind]
  rcases hout : outcome x w with ⟨r, w'⟩
  rw [hout] at hahead hwithin hok
  cases r with
  | error e => exact ⟨hahead, hwithin, fun a h => by cases h⟩
  | ok a =>
    have ha := hok a rfl
    obtain ⟨hahead', hrest⟩ := hf a w'.fs ha w' (by rw [hahead]; exact hw) hwithin (hQ a w'.fs ha)
    exact ⟨hahead'.trans hahead, hrest⟩

theorem Safe.conseq {R : α → Fs → Prop} (hx : Safe top root held x Q)
    (h : ∀ a fs, Q a fs → R a fs) : Safe top root held x R := by
  intro w hw hlog hheld
  obtain ⟨hahead, hwithin, hok⟩ := hx w hw hlog hheld
  exact ⟨hahead, hwithin, fun a ha => h a _ (hok a ha)⟩

/-- A program that makes no call. -/
theorem Safe.check {r : Except Errno α}
    (h : ∀ a, r = .ok a → ∀ fs, Held top root held fs → Q a fs) :
    Safe top root held (check r) Q :=
  fun w _ hlog hheld => ⟨rfl, hlog, fun a ha => h a ha w.fs hheld⟩

theorem Safe.pure {a : α} (h : ∀ fs, Held top root held fs → Q a fs) :
    Safe top root held (pure a) Q :=
  Safe.check (r := .ok a) fun b hb fs hheld => by cases hb; exact h fs hheld

theorem Safe.throw {e : Errno} : Safe top root held (throw e) Q :=
  Safe.check (r := .error e) fun b hb => by cases hb

theorem Safe.check_bind {r : Except Errno α} {f : α → Sys β} {R : β → Fs → Prop}
    (hf : ∀ a, r = .ok a → Safe top root held (f a) R) :
    Safe top root held (Inodes.check r >>= f) R := by
  refine Safe.bind (Q := fun a fs => r = .ok a ∧ Held top root held fs) (g := fun _ => held)
    (Safe.check fun a ha fs hheld => ⟨ha, hheld⟩) (fun _ _ h => h.2) ?_
  intro a _ ha
  exact hf a ha.1

/-- One call: it finds what is held still inside. -/
theorem Safe.call {run : Fs → Except Errno (α × Fs)}
    (h : ∀ fs, Held top root held fs → ∀ a fs', run fs = .ok (a, fs') →
      (Moment.mk fs fs').Within top root ∧ Q a fs') : Safe top root held (call run) Q := by
  intro w hw hlog hheld
  have hfound : Held top root held w.found := fun i hi => hw _ _ i (hheld i hi)
  have hpassed : ∀ fs', (Moment.mk w.found fs').Within top root →
      ∀ m ∈ (w.passed fs').log, m.Within top root := by
    intro fs' hm m hmem
    obtain hmem | hmem := List.mem_append.mp hmem
    · exact hlog m hmem
    · rw [List.mem_singleton.mp hmem]
      exact hm
  rw [outcome, Inodes.call]
  split
  · exact ⟨rfl, hpassed _ within_self, fun a ha => by cases ha⟩
  · split
    · exact ⟨rfl, hpassed _ within_self, fun a ha => by cases ha⟩
    · rename_i a fs' hrun
      obtain ⟨hm, hQ⟩ := h w.found hfound a fs' hrun
      exact ⟨rfl, hpassed _ hm, fun b hb => by cases hb; exact hQ⟩

/-- A call that may fail: what is held stays inside all the same. -/
theorem Safe.attempt_call {run : Fs → Except Errno (α × Fs)}
    (h : ∀ fs, Held top root held fs → ∀ a fs', run fs = .ok (a, fs') →
      (Moment.mk fs fs').Within top root ∧ Held top root held fs') :
    Safe top root held (attempt (Inodes.call run)) fun _ fs => Held top root held fs := by
  intro w hw hlog hheld
  obtain ⟨hahead, hwithin, hok⟩ :=
    Safe.call (Q := fun _ fs => Held top root held fs) h w hw hlog hheld
  refine ⟨hahead, hwithin, fun r _ => ?_⟩
  change Held top root held (outcome (Inodes.call run) w).2.fs
  cases hout : (outcome (Inodes.call run) w).1 with
  | ok a => exact hok a hout
  | error e =>
    have hfs : (outcome (Inodes.call run) w).2.fs = w.found := by
      rw [outcome, Inodes.call] at hout ⊢
      split
      · rfl
      · rename_i hfault
        rw [hfault] at hout
        simp only at hout
        split
        · rfl
        · rename_i hrun
          rw [hrun] at hout
          cases hout
    rw [hfs]
    exact fun i hi => hw _ _ i (hheld i hi)

/-- Nobody else acts afterwards either. -/
theorem Safe.quiet (hx : Safe top root [] x Q) {w : World} (hw : w.Quiet)
    (hlog : ∀ m ∈ w.log, m.Within top root) :
    (outcome x w).2.Quiet ∧ ∀ m ∈ (outcome x w).2.log, m.Within top root := by
  obtain ⟨hahead, hwithin, -⟩ := hx w (sheltered_of_quiet hw) hlog Held.nil
  refine ⟨fun k => ?_, hwithin⟩
  rw [hahead]
  exact hw k

/-- A program that may fail, and holds nothing. -/
theorem Safe.attempt (hx : Safe top root held x Q) :
    Safe top root held (attempt x) fun _ _ => True := by
  intro w hw hlog hheld
  obtain ⟨hahead, hwithin, -⟩ := hx w hw hlog hheld
  exact ⟨hahead, hwithin, fun _ _ => trivial⟩

end

end

end Inodes
