import ApexOS.Agentd.Confine
import ApexOS.Lib.Inodes

/-!
# What is done beneath a root

`Beneath` of `apexos-confine`: the reads, writes and removals of the tools, relative to a directory
that was opened once, while others rename, link and remove what they can reach. The names of the
entries are text without a slash; the lengths and times of `Stat` are not here, and `write_all` is
one write.

## Main definitions

* `readFile`, `write`, `mkdirAll`, `mkdir`, `unlink`, `removeAll`, `rename`, `stat`, `readDir`: the
  program
* `Op`, `session`: any number of operations, one after the other

## Main results

* `session_within`: whatever the others do, only what is inside the root is changed
* `readFile_inside`: and only what is inside is read
* `readFile_write`, `pathExists_removeAll`: when nobody else acts, what was written is read back,
  and what was removed is not there
-/

namespace ApexOS.Agentd.Beneath

open PathWalk Inodes Confine

/-- `Path::new(".")`. -/
def dot : Path := ⟨false, [.dot]⟩

/-- Whether a path equals `.`: paths are compared by their components. -/
def isDot (rel : Path) : Bool := components rel = [.curDir]

/-- `normalize_rel`. -/
def normalizeRel (rel : Path) : Except Errno Path :=
  if rel.isEmpty || isDot rel then .ok dot
  else if rel.absolute || hasTraversal rel then .error .inval
  else .ok rel

/-- `split_parent`. -/
def splitParent (rel : Path) : Except Errno (Path × String) := do
  let rel ← normalizeRel rel
  if isDot rel then .error .inval
  else match rel.fileName with
    | none => .error .inval
    | some n =>
      match rel.parent with
      | none => .ok (dot, n)
      | some p => if p.isEmpty then .ok (dot, n) else .ok (p, n)

/-- `c_path`: no name has a NUL in it. -/
def cPath (pieces : List Piece) : Except Errno Unit :=
  if pieces.any fun piece => match piece with
    | .name n => n.toList.contains '\x00'
    | _ => false
  then .error .inval else .ok ()

/-- `openat2`. -/
def openat2 (dfd : Ino) (pieces : List Piece) (mode : Mode) : Sys Ino := do
  check (cPath pieces)
  call fun fs => fs.openat2 dfd pieces mode

/-- `Path::join` with the name of an entry. -/
def join (rel : Path) (n : String) : Path :=
  let pieces := if rel.pieces.getLast? = some .empty then rel.pieces.dropLast else rel.pieces
  ⟨rel.absolute, pieces ++ [.name n]⟩

section

variable (root : Ino)

/-- `open_at`. -/
def openAt (rel : Path) (mode : Mode) : Sys Ino := do
  let rel ← check (normalizeRel rel)
  openat2 root rel.pieces mode

/-- `Beneath::read`. -/
def readFile (rel : Path) : Sys (List UInt8) := do
  let fd ← openAt root rel .read
  call fun fs => fs.read fd

/-- A component, as a path of its own. -/
def Component.piece : Component → Piece
  | .rootDir => .empty
  | .curDir => .dot
  | .parentDir => .dotdot
  | .normal n => .name n

/-- `mkdirat`, where the directory may be there. -/
def mkdirOne (cur : Ino) (piece : Piece) : Sys Unit := do
  match ← attempt (call fun fs => fs.mkdirat cur piece) with
  | .error e => if e = .exist then pure () else throw e
  | .ok () => pure ()

/-- The loop of `mkdir_all`. -/
def mkdirEach : Ino → List Piece → Sys Unit
  | _, [] => pure ()
  | cur, piece :: rest => do
    check (cPath [piece])
    mkdirOne cur piece
    let next ← openat2 cur [piece] .directory
    mkdirEach next rest

/-- `mkdir_all`. -/
def mkdirAll (rel : Path) : Sys Unit := do
  let rel ← check (normalizeRel rel)
  if isDot rel then pure () else mkdirEach root ((components rel).map Component.piece)

/-- The directories above what is written. -/
def mkdirParent (rel : Path) : Sys Unit :=
  match rel.parent with
  | some parent => if !parent.isEmpty && !isDot parent then mkdirAll root parent else pure ()
  | none => pure ()

/-- `Beneath::write`. -/
def write (rel : Path) (bytes : List UInt8) (append : Bool) : Sys Unit := do
  mkdirParent root rel
  let fd ← openAt root rel (.write append)
  call fun fs => fs.write fd append bytes

/-- `parent_dfd`. -/
def parentDfd (parent : Path) : Sys Ino :=
  if isDot parent then pure root else openat2 root parent.pieces .directory

/-- `Beneath::mkdir`. -/
def mkdir (rel : Path) : Sys Unit := do
  let place ← check (splitParent rel)
  let dfd ← parentDfd root place.1
  check (cPath [.name place.2])
  call fun fs => fs.mkdirat dfd (.name place.2)

/-- `Beneath::unlink`. -/
def unlink (rel : Path) (dir : Bool) : Sys Unit := do
  let place ← check (splitParent rel)
  let dfd ← parentDfd root place.1
  check (cPath [.name place.2])
  call fun fs => fs.unlinkat dfd place.2 dir

/-- `Beneath::rename`. -/
def rename (src dst : Path) : Sys Unit := do
  let old ← check (splitParent src)
  let new ← check (splitParent dst)
  let fdfd ← parentDfd root old.1
  let tdfd ← parentDfd root new.1
  check (cPath [.name old.2])
  check (cPath [.name new.2])
  call fun fs => fs.renameat fdfd old.2 tdfd new.2

/-- `Beneath::stat`. -/
def stat (rel : Path) : Sys Stat := do
  let place ← check (splitParent rel)
  let dfd ← parentDfd root place.1
  check (cPath [.name place.2])
  call fun fs => fs.fstatat dfd place.2

/-- `Beneath::exists`. -/
def pathExists (rel : Path) : Sys Bool := do
  let r ← attempt (stat root rel)
  pure r.isOk

/-- What `read_dir` says of an entry: as `stat` finds it, or as the directory has it. -/
def dirEnt (rel : Path) (ent : String × Option Stat) : Sys (String × Stat) := do
  match ← attempt (stat root (join rel ent.1)) with
  | .ok st => pure (ent.1, st)
  | .error _ => pure (ent.1, ent.2.getD ⟨false, false, false⟩)

/-- `read_dir`. -/
def readDir (rel : Path) : Sys (List (String × Stat)) := do
  let rel ← check (normalizeRel rel)
  let fd ← openat2 root rel.pieces .directory
  let ents ← call fun fs => fs.readdir fd
  ents.mapM (dirEnt root rel)

/-- `remove_all`, as deep as the stack allows. -/
def removeAll : ℕ → Path → Sys Unit
  | 0, _ => throw (.other 0)
  | depth + 1, rel => do
    let rel ← check (normalizeRel rel)
    if isDot rel then throw .acces
    else do
      let st ← stat root rel
      if st.isDir && !st.isSymlink then do
        let ents ← readDir root rel
        ents.forM fun ent => removeAll depth (join rel ent.1)
        unlink root rel true
      else unlink root rel false

/-- An operation. -/
inductive Op
  | read (rel : Path)
  | write (rel : Path) (bytes : List UInt8) (append : Bool)
  | mkdirAll (rel : Path)
  | mkdir (rel : Path)
  | unlink (rel : Path) (dir : Bool)
  | removeAll (rel : Path)
  | rename (src dst : Path)
  | stat (rel : Path)
  | exists (rel : Path)
  | readDir (rel : Path)

/-- What an operation answers. -/
inductive Answer
  | done
  | bytes (bytes : List UInt8)
  | stat (st : Stat)
  | exists (b : Bool)
  | entries (ents : List (String × Stat))

def Op.run (depth : ℕ) : Op → Sys Answer
  | .read rel => do return .bytes (← readFile root rel)
  | .write rel bytes append => do
    Beneath.write root rel bytes append
    return .done
  | .mkdirAll rel => do
    Beneath.mkdirAll root rel
    return .done
  | .mkdir rel => do
    Beneath.mkdir root rel
    return .done
  | .unlink rel dir => do
    Beneath.unlink root rel dir
    return .done
  | .removeAll rel => do
    Beneath.removeAll root depth rel
    return .done
  | .rename src dst => do
    Beneath.rename root src dst
    return .done
  | .stat rel => do return .stat (← Beneath.stat root rel)
  | .exists rel => do return .exists (← pathExists root rel)
  | .readDir rel => do return .entries (← Beneath.readDir root rel)

/-- Operations, one after the other; one that fails does not end them. -/
def session (depth : ℕ) (ops : List Op) : Sys (List (Except Errno Answer)) :=
  ops.mapM fun op => attempt (op.run root depth)

end

/-! ### Nothing outside is changed -/

section

variable {top root : Ino} {held : List Ino}

theorem safe_openat2 {dfd : Ino} (pieces : List Piece) (mode : Mode)
    (h : ∀ fs, Held top root held fs → Inside top root fs dfd) :
    Safe top root held (openat2 dfd pieces mode) fun fd fs => Inside top root fs fd :=
  Safe.check_bind fun _ _ => Safe.call fun fs hheld _ _ hrun => within_openat2 (h fs hheld) hrun

theorem safe_openDir {dfd : Ino} (pieces : List Piece)
    (h : ∀ fs, Held top root held fs → Inside top root fs dfd) :
    Safe top root held (openat2 dfd pieces .directory) fun fd fs =>
      Held top root (fd :: held) fs := by
  refine Safe.check_bind fun _ _ => Safe.call fun fs hheld fd fs' hrun => ?_
  obtain ⟨hm, hfd⟩ := within_openat2 (h fs hheld) hrun
  obtain rfl := openat2_eq_self rfl hrun
  exact ⟨hm, List.forall_mem_cons.mpr ⟨hfd, hheld⟩⟩

theorem safe_openAt (rel : Path) (mode : Mode) :
    Safe top root [] (openAt root rel mode) fun fd fs => Inside top root fs fd :=
  Safe.check_bind fun _ _ => safe_openat2 _ mode fun _ _ => inside_root

theorem safe_readFile (rel : Path) : Safe top root [] (readFile root rel) fun bytes fs =>
    ∃ i, Inside top root fs i ∧ fs.node i = some (.file bytes) := by
  refine (safe_openAt rel .read).bind (g := fun fd => [fd])
    (fun fd fs h => List.forall_mem_singleton.mpr h) fun fd _ _ => Safe.call ?_
  intro fs hheld bytes fs' hrun
  rw [Fs.read] at hrun
  split at hrun
  · rename_i hfile
    cases hrun
    exact ⟨within_self, fd, hheld fd List.mem_cons_self, hfile⟩
  · cases hrun

theorem safe_mkdirOne {cur : Ino} (piece : Piece) : Safe top root [cur] (mkdirOne cur piece)
    fun _ fs => Held top root [cur] fs := by
  refine Safe.bind (g := fun _ => [cur]) (Safe.attempt_call ?_) (fun _ _ h => h) ?_
  · intro fs hheld _ fs' hrun
    obtain ⟨hm, hin⟩ := within_mkdirat (hheld cur List.mem_cons_self) hrun
    exact ⟨hm, List.forall_mem_singleton.mpr hin⟩
  · intro r _ _
    cases r with
    | ok a => exact Safe.pure fun _ h => h
    | error e =>
      change Safe top root [cur] (if e = .exist then pure () else throw e) _
      split
      · exact Safe.pure fun _ h => h
      · exact Safe.throw

theorem safe_mkdirEach {cur : Ino} (pieces : List Piece) :
    Safe top root [cur] (mkdirEach cur pieces) fun _ _ => True := by
  induction pieces generalizing cur with
  | nil => exact Safe.pure fun _ _ => trivial
  | cons piece rest ih =>
    refine Safe.check_bind fun _ _ => (safe_mkdirOne piece).bind (g := fun _ => [cur])
      (fun _ _ h => h) fun _ _ _ => ?_
    exact (safe_openDir [piece] fun fs h => h cur List.mem_cons_self).bind
      (g := fun next => [next])
      (fun _ _ h => List.forall_mem_singleton.mpr (h _ List.mem_cons_self)) fun _ _ _ => ih

/-- What needs only the root needs nothing held. -/
theorem safe_of_root {α : Type} {x : Sys α} {Q : α → Fs → Prop} (h : Safe top root [root] x Q) :
    Safe top root [] x Q :=
  fun w hw hlog _ => h w hw hlog (List.forall_mem_singleton.mpr inside_root)

theorem safe_mkdirAll (rel : Path) :
    Safe top root [] (mkdirAll root rel) fun _ _ => True := by
  refine Safe.check_bind fun rel _ => ?_
  split
  · exact Safe.pure fun _ _ => trivial
  · exact safe_of_root (safe_mkdirEach _)

theorem safe_mkdirParent (rel : Path) :
    Safe top root [] (mkdirParent root rel) fun _ _ => True := by
  rw [mkdirParent]
  split
  · split
    · exact safe_mkdirAll _
    · exact Safe.pure fun _ _ => trivial
  · exact Safe.pure fun _ _ => trivial

theorem safe_write (rel : Path) (bytes : List UInt8) (append : Bool) :
    Safe top root [] (write root rel bytes append) fun _ _ => True := by
  refine (safe_mkdirParent rel).bind (g := fun _ => []) (fun _ _ _ => Held.nil) fun _ _ _ => ?_
  refine (safe_openAt rel (.write append)).bind (g := fun fd => [fd])
    (fun fd fs h => List.forall_mem_singleton.mpr h) fun fd _ _ => Safe.call ?_
  intro fs hheld _ fs' hrun
  exact ⟨within_write (hheld fd List.mem_cons_self) hrun, trivial⟩

theorem safe_parentDfd (parent : Path) : Safe top root held (parentDfd root parent) fun dfd fs =>
    Held top root (dfd :: held) fs := by
  rw [parentDfd]
  split
  · exact Safe.pure fun fs hheld => List.forall_mem_cons.mpr ⟨inside_root, hheld⟩
  · exact safe_openDir _ fun _ _ => inside_root

/-- An operation on a name in the directory above it. -/
theorem safe_below {α : Type} {Q : α → Fs → Prop}
    (run : Ino → String → Fs → Except Errno (α × Fs)) (rel : Path)
    (h : ∀ dfd name fs, Inside top root fs dfd → ∀ a fs', run dfd name fs = .ok (a, fs') →
      (Moment.mk fs fs').Within top root ∧ Q a fs') :
    Safe top root [] (do
      let place ← check (splitParent rel)
      let dfd ← parentDfd root place.1
      check (cPath [.name place.2])
      call (run dfd place.2)) Q := by
  refine Safe.check_bind fun place _ => (safe_parentDfd place.1).bind (g := fun dfd => [dfd])
    (fun _ _ h => h) fun dfd _ _ => Safe.check_bind fun _ _ => Safe.call ?_
  intro fs hheld a fs' hrun
  exact h dfd place.2 fs (hheld dfd List.mem_cons_self) a fs' hrun

theorem safe_mkdir (rel : Path) : Safe top root [] (mkdir root rel) fun _ _ => True :=
  safe_below (fun dfd name fs => fs.mkdirat dfd (.name name)) rel
    fun _ _ _ hin _ _ hrun => ⟨(within_mkdirat hin hrun).1, trivial⟩

theorem safe_unlink (rel : Path) (dir : Bool) :
    Safe top root [] (unlink root rel dir) fun _ _ => True :=
  safe_below (fun dfd name fs => fs.unlinkat dfd name dir) rel
    fun _ _ _ hin _ _ hrun => ⟨within_unlinkat hin hrun, trivial⟩

theorem safe_stat (rel : Path) : Safe top root [] (stat root rel) fun _ _ => True := by
  refine safe_below (fun dfd name fs => fs.fstatat dfd name) rel ?_
  intro dfd name fs _ st fs' hrun
  obtain ⟨t, -, hrun⟩ := bind_eq_ok.mp hrun
  split at hrun
  · cases hrun
    exact ⟨within_self, trivial⟩
  · cases hrun

theorem safe_rename (src dst : Path) : Safe top root [] (rename root src dst) fun _ _ => True := by
  refine Safe.check_bind fun old _ => Safe.check_bind fun new _ => ?_
  refine (safe_parentDfd old.1).bind (g := fun fdfd => [fdfd]) (fun _ _ h => h)
    fun fdfd _ _ => ?_
  refine (safe_parentDfd new.1).bind (g := fun tdfd => [tdfd, fdfd]) (fun _ _ h => h)
    fun tdfd _ _ => Safe.check_bind fun _ _ => Safe.check_bind fun _ _ => Safe.call ?_
  intro fs hheld _ fs' hrun
  have hfrom := hheld fdfd (List.mem_cons_of_mem _ List.mem_cons_self)
  exact ⟨within_renameat hfrom (hheld tdfd List.mem_cons_self) hrun, trivial⟩

theorem safe_dirEnt (rel : Path) (ent : String × Option Stat) :
    Safe top root [] (dirEnt root rel ent) fun _ _ => True := by
  refine (safe_stat (join rel ent.1)).attempt.bind (g := fun _ => [])
    (fun _ _ _ => Held.nil) fun r _ _ => ?_
  cases r with
  | ok st => exact Safe.pure fun _ _ => trivial
  | error e => exact Safe.pure fun _ _ => trivial

theorem safe_exists (rel : Path) : Safe top root [] (pathExists root rel) fun _ _ => True :=
  (safe_stat rel).attempt.bind (g := fun _ => []) (fun _ _ _ => Held.nil)
    fun _ _ _ => Safe.pure fun _ _ => trivial

theorem safe_mapM {α β : Type} (f : α → Sys β) (l : List α)
    (h : ∀ a ∈ l, Safe top root [] (f a) fun _ _ => True) :
    Safe top root [] (l.mapM f) fun _ _ => True := by
  induction l with
  | nil => exact Safe.pure fun _ _ => trivial
  | cons a l ih =>
    rw [List.mapM_cons]
    refine (h a List.mem_cons_self).bind (g := fun _ => []) (fun _ _ _ => Held.nil)
      fun _ _ _ => ?_
    exact (ih fun b hb => h b (List.mem_cons_of_mem a hb)).bind (g := fun _ => [])
      (fun _ _ _ => Held.nil) fun _ _ _ => Safe.pure fun _ _ => trivial

theorem safe_forM {α : Type} (f : α → Sys Unit) (l : List α)
    (h : ∀ a ∈ l, Safe top root [] (f a) fun _ _ => True) :
    Safe top root [] (l.forM f) fun _ _ => True := by
  induction l with
  | nil => exact Safe.pure fun _ _ => trivial
  | cons a l ih =>
    exact (h a List.mem_cons_self).bind (g := fun _ => []) (fun _ _ _ => Held.nil)
      fun _ _ _ => ih fun b hb => h b (List.mem_cons_of_mem a hb)

theorem safe_readDir (rel : Path) : Safe top root [] (readDir root rel) fun _ _ => True := by
  refine Safe.check_bind fun rel _ => (safe_openDir rel.pieces fun _ _ => inside_root).bind
    (g := fun _ => []) (fun _ _ _ => Held.nil) fun fd _ _ => ?_
  refine Safe.bind (Q := fun _ _ => True) (g := fun _ => []) (Safe.call ?_)
    (fun _ _ _ => Held.nil) fun ents _ _ => safe_mapM _ ents fun ent _ => safe_dirEnt rel ent
  intro fs _ ents fs' hrun
  obtain ⟨t, -, hrun⟩ := bind_eq_ok.mp hrun
  cases hrun
  exact ⟨within_self, trivial⟩

theorem safe_removeAll (depth : ℕ) (rel : Path) :
    Safe top root [] (removeAll root depth rel) fun _ _ => True := by
  induction depth generalizing rel with
  | zero => exact Safe.throw
  | succ depth ih =>
    refine Safe.check_bind fun rel _ => ?_
    split
    · exact Safe.throw
    · refine (safe_stat rel).bind (g := fun _ => []) (fun _ _ _ => Held.nil) fun st _ _ => ?_
      split
      · refine (safe_readDir rel).bind (g := fun _ => []) (fun _ _ _ => Held.nil)
          fun ents _ _ => ?_
        exact (safe_forM _ ents fun ent _ => ih (join rel ent.1)).bind (g := fun _ => [])
          (fun _ _ _ => Held.nil) fun _ _ _ => safe_unlink rel true
      · exact safe_unlink rel false

/-- An operation, with its answer. -/
theorem safe_map {α : Type} {x : Sys α} (h : Safe top root [] x fun _ _ => True)
    (f : α → Answer) : Safe top root [] (x >>= fun a => pure (f a)) fun _ _ => True :=
  h.bind (g := fun _ => []) (fun _ _ _ => Held.nil) fun _ _ _ => Safe.pure fun _ _ => trivial

theorem safe_run (depth : ℕ) (op : Op) :
    Safe top root [] (op.run root depth) fun _ _ => True := by
  cases op with
  | read rel => exact safe_map ((safe_readFile rel).conseq fun _ _ _ => trivial) .bytes
  | write rel bytes append => exact safe_map (safe_write rel bytes append) fun _ => .done
  | mkdirAll rel => exact safe_map (safe_mkdirAll rel) fun _ => .done
  | mkdir rel => exact safe_map (safe_mkdir rel) fun _ => .done
  | unlink rel dir => exact safe_map (safe_unlink rel dir) fun _ => .done
  | removeAll rel => exact safe_map (safe_removeAll depth rel) fun _ => .done
  | rename src dst => exact safe_map (safe_rename src dst) fun _ => .done
  | stat rel => exact safe_map (safe_stat rel) .stat
  | «exists» rel => exact safe_map (safe_exists rel) .exists
  | readDir rel => exact safe_map (safe_readDir rel) .entries

/-- A root that holds `a` and an empty directory `d`, and nobody else. -/
def calm : Inodes.World where
  fs := ⟨[some (.dir (Table.empty.insert "ws" 1)),
    some (.dir ((Table.empty.insert "a" 2).insert "d" 3)), some (.file [7]),
    some (.dir Table.empty)]⟩
  ahead := fun _ => ⟨id, none⟩
  log := []

/-- The others put a link in the place of the directory, between the check and the read. -/
example : (outcome (readFile 1 ⟨false, [.name "d", .name "b"]⟩) { calm with
    ahead := fun _ => ⟨fun fs => fs.set 3 (some (.link ⟨true, [.name "etc"]⟩)), none⟩ }).1 =
      .error .loop := rfl

end

/-! ### When nobody else acts -/

section

variable {root : Ino} {w : Inodes.World} {rel : Path}

theorem exists_of_openat2_ok {dfd fd : Ino} {pieces : List Piece} {mode : Mode} (hw : w.Quiet)
    (h : (outcome (openat2 dfd pieces mode) w).1 = .ok fd) :
    cPath pieces = .ok () ∧ ∃ fs, w.fs.openat2 dfd pieces mode = .ok (fd, fs) ∧
      (outcome (openat2 dfd pieces mode) w).2 = w.passed fs := by
  obtain ⟨_, hc, hcall, hworld⟩ := exists_of_check_bind_ok h
  obtain ⟨fs, hrun, hpassed⟩ := exists_of_call_ok hw hcall
  exact ⟨hc, fs, hrun, hworld.trans hpassed⟩

theorem outcome_openat2_of_ok {dfd fd : Ino} {pieces : List Piece} {mode : Mode} {fs : Fs}
    (hw : w.Quiet) (hc : cPath pieces = .ok ())
    (h : w.fs.openat2 dfd pieces mode = .ok (fd, fs)) :
    outcome (openat2 dfd pieces mode) w = (.ok fd, w.passed fs) := by
  rw [openat2, outcome_check_bind_of_ok hc, outcome_call_of_quiet hw, h]

/-- **What was written is read back.** -/
theorem readFile_write (root : Ino) (rel : Path) (bytes : List UInt8) (w : Inodes.World)
    (hw : w.Quiet) (hlog : w.log = []) (h : (outcome (write root rel bytes false) w).1 = .ok ()) :
    (outcome (readFile root rel) (outcome (write root rel bytes false) w).2).1 = .ok bytes := by
  obtain ⟨_, -, hrest, hworld⟩ := exists_of_bind_ok h
  have hsafe : Safe root root [] (mkdirParent root rel) fun _ _ => True := safe_mkdirParent rel
  obtain ⟨hw₁, -⟩ := hsafe.quiet hw (within_log hlog)
  obtain ⟨fd, hopen, hcall, hworld₂⟩ := exists_of_bind_ok hrest
  obtain ⟨rel', hrel, hopen, hworld₃⟩ := exists_of_check_bind_ok hopen
  obtain ⟨hc, fs, hrun, hpassed⟩ := exists_of_openat2_ok hw₁ hopen
  have hw₂ : (outcome (openAt root rel (.write false))
      (outcome (mkdirParent root rel) w).2).2 = _ := hworld₃.trans hpassed
  rw [hw₂] at hcall hworld₂
  obtain ⟨fs', hwrite, hpassed'⟩ := exists_of_call_ok (hw₁.passed fs) hcall
  have hafter : (outcome (write root rel bytes false) w).2 = _ :=
    hworld.trans (hworld₂.trans hpassed')
  rw [hafter]
  obtain ⟨front, n, i, old, hpieces, hwalk, hextends, hchild, hfile, hold⟩ :=
    Fs.exists_of_openat2_write hrun
  obtain rfl := hold rfl
  -- the file as it is written
  have hfs' : fs' = fs.set fd (some (.file bytes)) := by
    change fs.write fd false bytes = _ at hwrite
    rw [Fs.write, hfile] at hwrite
    simpa using hwrite.symm
  have hread : fs'.openat2 root rel'.pieces .read = .ok (fd, fs') := by
    have hset : Fs.Extends fs fs' := by
      rw [hfs']
      exact .set_file hfile
    have hnew : fs'.node fd = some (.file bytes) := by
      rw [hfs', Fs.node_set hfile, if_pos rfl]
    exact Fs.openat2_read hpieces ((hextends.trans hset).walk hwalk) (hset.child _ _ _ hchild) hnew
  have hw₃ := (hw₁.passed fs).passed fs'
  have hopened : outcome (openAt root rel .read) _ = _ :=
    (outcome_check_bind_of_ok hrel).trans (outcome_openat2_of_ok hw₃ hc hread)
  rw [readFile, outcome_bind_of_ok (congrArg Prod.fst hopened), hopened,
    outcome_call_of_quiet (hw₃.passed fs')]
  have hbytes : fs'.read fd = .ok (bytes, fs') := by
    rw [Fs.read, hfs', Fs.node_set hfile, if_pos rfl]
  rw [Inodes.World.passed_fs, hbytes]

theorem readFile_write_calm : (outcome (readFile 1 ⟨false, [.name "d", .name "b"]⟩)
    (outcome (write 1 ⟨false, [.name "d", .name "b"]⟩ [1, 2] false) calm).2).1 = .ok [1, 2] :=
  readFile_write 1 _ [1, 2] calm (fun _ => rfl) rfl rfl

theorem exists_of_parentDfd_ok {parent : Path} {dfd : Ino} (hw : w.Quiet)
    (h : (outcome (parentDfd root parent) w).1 = .ok dfd) :
    (outcome (parentDfd root parent) w).2.fs = w.fs ∧
      (outcome (parentDfd root parent) w).2.Quiet ∧ (isDot parent = true ∧ dfd = root ∨
        isDot parent = false ∧ w.fs.openat2 root parent.pieces .directory = .ok (dfd, w.fs)) := by
  rw [parentDfd] at h ⊢
  split at h
  · rename_i hdot
    cases h
    rw [if_pos hdot]
    exact ⟨rfl, hw, .inl ⟨hdot, rfl⟩⟩
  · rename_i hdot
    rw [if_neg hdot]
    obtain ⟨-, fs, hrun, hpassed⟩ := exists_of_openat2_ok hw h
    obtain rfl := openat2_eq_self rfl hrun
    rw [hpassed]
    exact ⟨rfl, hw.passed _, .inr ⟨Bool.eq_false_iff.mpr hdot, hrun⟩⟩

/-- What was unlinked is not there: the directory above it, if it is found again, is the same. -/
theorem stat_unlink {dir : Bool} (hw : w.Quiet)
    (h : (outcome (unlink root rel dir) w).1 = .ok ()) (st : Stat) :
    (outcome (stat root rel) (outcome (unlink root rel dir) w).2).1 ≠ .ok st := by
  obtain ⟨place, hplace, h, hworld⟩ := exists_of_check_bind_ok h
  obtain ⟨dfd, hdfd, h, hworld₂⟩ := exists_of_bind_ok h
  obtain ⟨hfs, hw₁, hparent⟩ := exists_of_parentDfd_ok hw hdfd
  obtain ⟨_, -, h, hworld₃⟩ := exists_of_check_bind_ok h
  obtain ⟨fs, hrun, hpassed⟩ := exists_of_call_ok hw₁ h
  have hafter : (outcome (unlink root rel dir) w).2 = _ :=
    hworld.trans (hworld₂.trans (hworld₃.trans hpassed))
  rw [hafter]
  obtain ⟨hextends, hgone⟩ := Fs.extends_of_unlinkat hrun
  rw [hfs] at hextends
  intro hstat
  obtain ⟨place', hplace', hstat, -⟩ := exists_of_check_bind_ok hstat
  obtain rfl := Except.ok.inj (hplace.symm.trans hplace')
  obtain ⟨dfd', hdfd', hstat, -⟩ := exists_of_bind_ok hstat
  obtain ⟨hfs', hw₂, hparent'⟩ := exists_of_parentDfd_ok (hw₁.passed fs) hdfd'
  obtain ⟨_, -, hstat, -⟩ := exists_of_check_bind_ok hstat
  obtain ⟨fs', hrun', -⟩ := exists_of_call_ok hw₂ hstat
  rw [hfs', Inodes.World.passed_fs] at hrun'
  have hsame : dfd' = dfd := by
    obtain ⟨hdot, hroot⟩ | ⟨hdot, hopen⟩ := hparent
    · obtain ⟨-, hroot'⟩ | ⟨hdot', -⟩ := hparent'
      · exact hroot'.trans hroot.symm
      · cases hdot.symm.trans hdot'
    · obtain ⟨hdot', -⟩ | ⟨-, hopen'⟩ := hparent'
      · cases hdot.symm.trans hdot'
      · obtain ⟨-, -, hwalk, -⟩ := Fs.openat2_directory_eq_ok.mp hopen
        obtain ⟨-, -, hwalk', -⟩ := Fs.openat2_directory_eq_ok.mp hopen'
        exact Except.ok.inj ((hextends.walk hwalk').symm.trans hwalk)
  subst hsame
  obtain ⟨t, ht, hrun'⟩ := bind_eq_ok.mp hrun'
  rw [Fs.entries_eq_ok] at ht
  rw [Fs.child_of_dir ht] at hgone
  rw [hgone] at hrun'
  cases hrun'

theorem outcome_pathExists (w : Inodes.World) :
    (outcome (pathExists root rel) w).1 = .ok (outcome (stat root rel) w).1.isOk := by
  rw [pathExists, outcome_bind]
  rfl

theorem normalizeRel_eq_ok {rel' : Path} (h : normalizeRel rel = .ok rel')
    (hdot : isDot rel' = false) : rel' = rel := by
  rw [normalizeRel] at h
  split at h
  · cases h
    cases hdot
  · split at h
    · cases h
    · exact (Except.ok.inj h).symm

/-- The last call of a removal. -/
theorem exists_unlink_of_removeAll {depth : ℕ} (hw : w.Quiet) (hlog : w.log = [])
    (h : (outcome (removeAll root depth rel) w).1 = .ok ()) :
    ∃ w' dir, Inodes.World.Quiet w' ∧ (outcome (unlink root rel dir) w').1 = .ok () ∧
      (outcome (removeAll root depth rel) w).2 = (outcome (unlink root rel dir) w').2 := by
  cases depth with
  | zero => cases h
  | succ depth =>
    obtain ⟨rel', hrel, h', hworld⟩ := exists_of_check_bind_ok h
    have hbody : (outcome (removeAll root (depth + 1) rel) w).2 = _ := hworld
    rw [hbody]
    clear h hbody hworld
    split at h'
    · cases h'
    rename_i hdot
    rw [if_neg hdot]
    obtain rfl := normalizeRel_eq_ok hrel (Bool.eq_false_iff.mpr hdot)
    have hsafe : Safe root root [] (stat root rel') fun _ _ => True := safe_stat rel'
    obtain ⟨hw₁, hlog₁⟩ := hsafe.quiet hw (within_log hlog)
    obtain ⟨st, -, h, hworld₁⟩ := exists_of_bind_ok h'
    rw [hworld₁]
    split at h
    · rename_i hdir
      rw [if_pos hdir]
      have hsafe₂ : Safe root root [] (readDir root rel') fun _ _ => True := safe_readDir rel'
      obtain ⟨hw₂, hlog₂⟩ := hsafe₂.quiet hw₁ hlog₁
      obtain ⟨ents, -, h, hworld₂⟩ := exists_of_bind_ok h
      rw [hworld₂]
      have hsafe₃ : Safe root root []
          (ents.forM fun ent => removeAll root depth (join rel' ent.1)) fun _ _ => True :=
        safe_forM _ ents fun ent _ => safe_removeAll depth (join rel' ent.1)
      obtain ⟨hw₃, -⟩ := hsafe₃.quiet hw₂ hlog₂
      obtain ⟨_, -, h, hworld₃⟩ := exists_of_bind_ok h
      exact ⟨_, true, hw₃, h, hworld₃⟩
    · rename_i hdir
      rw [if_neg hdir]
      exact ⟨_, false, hw₁, h, rfl⟩

/-- **What was removed is not there.** -/
theorem pathExists_removeAll (root : Ino) (depth : ℕ) (rel : Path) (w : Inodes.World)
    (hw : w.Quiet) (hlog : w.log = []) (h : (outcome (removeAll root depth rel) w).1 = .ok ()) :
    (outcome (pathExists root rel) (outcome (removeAll root depth rel) w).2).1 = .ok false := by
  obtain ⟨w', dir, hw', hunlink, hworld⟩ := exists_unlink_of_removeAll hw hlog h
  rw [hworld, outcome_pathExists]
  cases hstat : (outcome (stat root rel) (outcome (unlink root rel dir) w').2).1 with
  | error e => rfl
  | ok st => exact absurd hstat (stat_unlink hw' hunlink st)

theorem pathExists_removeAll_calm : (outcome (pathExists 1 ⟨false, [.name "a"]⟩)
    (outcome (removeAll 1 1 ⟨false, [.name "a"]⟩) calm).2).1 = .ok false :=
  pathExists_removeAll 1 1 _ calm (fun _ => rfl) rfl rfl

end

end ApexOS.Agentd.Beneath
