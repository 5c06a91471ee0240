import ApexOS.Lib.Toml

/-!
# The text of a TOML document

A document is a sequence of statements: entries, which may have a dotted key, and headers of tables
and of elements of arrays of tables. Comments, blank lines and the ways to write a value are left
out.

## Main definitions

* `Stmt`, `Node`: statements, and what they make
* `exec`, `build`: the tables that statements make, if they agree with each other

## Main results

* `descend_entry`: an entry sets one key of its table, where there was no value
* `exec_agree`, `run_agree`: of a key with a value, no later entry depends on what the value is
-/

namespace TomlText

abbrev Text := List Char

/-- A value that is no table; of some kinds, which value is left out. -/
inductive Value
  | integer (n : ℤ)
  | string (s : Text)
  | other
  deriving DecidableEq, Repr

inductive Stmt
  | entry (path : List String) (key : String) (value : Value)
  | header (path : List String) (key : String)
  | arrayHeader (path : List String) (key : String)
  deriving DecidableEq, Repr

/-- How a table came about: on the way to another, by a dotted key, or by its header. -/
inductive Kind
  | implicit
  | dotted
  | explicit
  deriving DecidableEq, Repr

inductive Node
  | leaf (value : Value)
  | table (kind : Kind) (entries : List (String × Node))
  | tables (elements : List (List (String × Node)))

abbrev Entries := List (String × Node)

/-- The table at the end of a path is changed; dotted keys go through dotted tables only. -/
def descend (isDotted : Bool) (f : Entries → Option Entries) :
    List String → Entries → Option Entries
  | [], entries => f entries
  | key :: path, entries =>
    match entries.lookup key with
    | none => (descend isDotted f path []).map fun sub =>
      setEntry key (.table (if isDotted then .dotted else .implicit) sub) entries
    | some (.leaf _) => none
    | some (.table kind sub) =>
      if isDotted ∧ kind ≠ .dotted then none
      else (descend isDotted f path sub).map fun sub => setEntry key (.table kind sub) entries
    | some (.tables elements) =>
      if isDotted then none
      else match elements.getLast? with
        | none => none
        | some last => (descend isDotted f path last).map fun sub =>
          setEntry key (.tables (elements.dropLast ++ [sub])) entries

def insertKey (key : String) (value : Value) (entries : Entries) : Option Entries :=
  match entries.lookup key with
  | none => some (setEntry key (.leaf value) entries)
  | some _ => none

def openTable (key : String) (entries : Entries) : Option Entries :=
  match entries.lookup key with
  | none => some (setEntry key (.table .explicit []) entries)
  | some (.table .implicit sub) => some (setEntry key (.table .explicit sub) entries)
  | some _ => none

def openElement (key : String) (entries : Entries) : Option Entries :=
  match entries.lookup key with
  | none => some (setEntry key (.tables [[]]) entries)
  | some (.tables elements) => some (setEntry key (.tables (elements ++ [[]])) entries)
  | some _ => none

/-- The root, and the table that entries go to. -/
structure State where
  root : Entries
  current : List String

def exec (s : State) : Stmt → Option State
  | .entry path key value =>
    (descend false (descend true (insertKey key value) path) s.current s.root).map fun root =>
      { s with root }
  | .header path key => (descend false (openTable key) path s.root).map (⟨·, path ++ [key]⟩)
  | .arrayHeader path key => (descend false (openElement key) path s.root).map (⟨·, path ++ [key]⟩)

def run (s : State) (stmts : List Stmt) : Option State := stmts.foldlM exec s

def build (stmts : List Stmt) : Option State := run ⟨[], []⟩ stmts

/-! ### What a statement changes -/

def Node.IsLeaf : Node → Prop
  | .leaf _ => True
  | _ => False

/-- A change of a table at one key, which depends on what is there only. A value is not changed, and
a table stays one. -/
structure ChangesAt (f : Entries → Option Entries) (key : String)
    (g : Option Node → Option Node) : Prop where
  eq : ∀ entries, f entries = (g (entries.lookup key)).map fun node => setEntry key node entries
  leaf : ∀ v, g (some (.leaf v)) = none
  table : ∀ {node node'}, g (some node) = some node' → ¬ node'.IsLeaf

theorem changesAt_insertKey (key : String) (value : Value) :
    ∃ g, ChangesAt (insertKey key value) key g := by
  refine ⟨fun node => match node with
    | none => some (.leaf value)
    | some _ => none, fun entries => ?_, fun _ => rfl, nofun⟩
  rw [insertKey]
  cases entries.lookup key <;> rfl

theorem changesAt_openTable (key : String) : ∃ g, ChangesAt (openTable key) key g := by
  refine ⟨fun node => match node with
    | none => some (.table .explicit [])
    | some (.table .implicit sub) => some (.table .explicit sub)
    | some _ => none, fun entries => ?_, fun _ => rfl, fun {node node'} h => ?_⟩
  · rw [openTable]
    rcases entries.lookup key with _ | (v | ⟨_ | _ | _, sub⟩ | elements) <;> rfl
  · rcases node with v | ⟨_ | _ | _, sub⟩ | elements
    · cases h
    · obtain rfl := Option.some.inj h
      exact id
    · cases h
    · cases h
    · cases h

theorem changesAt_openElement (key : String) : ∃ g, ChangesAt (openElement key) key g := by
  refine ⟨fun node => match node with
    | none => some (.tables [[]])
    | some (.tables elements) => some (.tables (elements ++ [[]]))
    | some _ => none, fun entries => ?_, fun _ => rfl, fun {node node'} h => ?_⟩
  · rw [openElement]
    rcases entries.lookup key with _ | (v | ⟨kind, sub⟩ | elements) <;> rfl
  · cases node with
    | leaf v => cases h
    | table kind sub => cases h
    | tables elements =>
      obtain rfl := Option.some.inj h
      exact id

/-- A change somewhere below a key makes a table of it. -/
theorem descend_cons (isDotted : Bool) (f : Entries → Option Entries) (key : String)
    (path : List String) : ∃ g, ChangesAt (descend isDotted f (key :: path)) key g ∧
      ∀ {node node'}, g node = some node' → ¬ node'.IsLeaf := by
  have htable {kind : Kind} {sub : Option Entries} {node : Node}
      (h : sub.map (.table kind ·) = some node) : ¬ node.IsLeaf := by
    obtain ⟨entries, -, rfl⟩ := Option.map_eq_some_iff.mp h
    exact id
  let g : Option Node → Option Node := fun node => match node with
    | none => (descend isDotted f path []).map (.table (if isDotted then .dotted else .implicit) ·)
    | some (.leaf _) => none
    | some (.table kind sub) =>
      if isDotted ∧ kind ≠ .dotted then none else (descend isDotted f path sub).map (.table kind ·)
    | some (.tables elements) =>
      if isDotted then none
      else match elements.getLast? with
        | none => none
        | some last =>
          (descend isDotted f path last).map fun sub => .tables (elements.dropLast ++ [sub])
  have hnot {node : Option Node} {node' : Node} (h : g node = some node') : ¬ node'.IsLeaf := by
    rcases node with _ | (v | ⟨kind, sub⟩ | elements)
    · exact htable h
    · cases h
    · simp only [g] at h
      split at h
      · cases h
      · exact htable h
    · simp only [g] at h
      split at h
      · cases h
      · split at h
        · cases h
        · obtain ⟨entries, -, rfl⟩ := Option.map_eq_some_iff.mp h
          exact id
  refine ⟨g, ⟨fun entries => ?_, fun _ => rfl, hnot⟩, hnot⟩
  rw [descend]
  rcases entries.lookup key with _ | (v | ⟨kind, sub⟩ | elements)
  · simp [g, Function.comp_def]
  · rfl
  · by_cases hdotted : isDotted ∧ kind ≠ .dotted
    · simp only [g, if_pos hdotted, Option.map_none]
    · simp only [g, if_neg hdotted, Option.map_map, Function.comp_def]
  · by_cases hdotted : isDotted
    · simp only [g, if_pos hdotted, Option.map_none]
    · cases hlast : elements.getLast? with
      | none => simp [g, hdotted, hlast]
      | some last => simp [g, hdotted, hlast, Function.comp_def]

theorem changesAt_descend {f : Entries → Option Entries}
    (h : ∃ key g, ChangesAt f key g) (isDotted : Bool) (path : List String) :
    ∃ key g, ChangesAt (descend isDotted f path) key g := by
  cases path with
  | nil => exact h
  | cons key path =>
    obtain ⟨g, hg, -⟩ := descend_cons isDotted f key path
    exact ⟨key, g, hg⟩

/-- The table that entries go to after a statement. -/
def next (current : List String) : Stmt → List String
  | .entry _ _ _ => current
  | .header path key => path ++ [key]
  | .arrayHeader path key => path ++ [key]

/-- **A statement changes the root at one key.** -/
theorem exec_changesAt (current : List String) (stmt : Stmt) : ∃ f key g, ChangesAt f key g ∧
    ∀ root, exec ⟨root, current⟩ stmt = (f root).map (⟨·, next current stmt⟩) := by
  cases stmt with
  | entry path key value =>
    obtain ⟨g, hg⟩ := changesAt_insertKey key value
    obtain ⟨first, g', hg'⟩ :=
      changesAt_descend (changesAt_descend ⟨key, g, hg⟩ true path) false current
    exact ⟨_, first, g', hg', fun _ => rfl⟩
  | header path key =>
    obtain ⟨g, hg⟩ := changesAt_openTable key
    obtain ⟨first, g', hg'⟩ := changesAt_descend ⟨key, g, hg⟩ false path
    exact ⟨_, first, g', hg', fun _ => rfl⟩
  | arrayHeader path key =>
    obtain ⟨g, hg⟩ := changesAt_openElement key
    obtain ⟨first, g', hg'⟩ := changesAt_descend ⟨key, g, hg⟩ false path
    exact ⟨_, first, g', hg', fun _ => rfl⟩

theorem run_cons (s : State) (stmt : Stmt) (stmts : List Stmt) :
    run s (stmt :: stmts) = (exec s stmt).bind fun t => run t stmts := List.foldlM_cons

theorem run_append (s : State) (xs ys : List Stmt) :
    run s (xs ++ ys) = (run s xs).bind fun t => run t ys := List.foldlM_append ..

/-- Once there was a header, entries go to a table. -/
theorem run_current {s t : State} {stmts : List Stmt} (h : run s stmts = some t)
    (ht : t.current = []) : s.current = [] := by
  induction stmts generalizing s with
  | nil =>
    obtain rfl := Option.some.inj h
    exact ht
  | cons stmt stmts ih =>
    rw [run_cons] at h
    obtain ⟨u, hu, hrun⟩ := Option.bind_eq_some_iff.mp h
    obtain ⟨f, key, g, -, hexec⟩ := exec_changesAt s.current stmt
    obtain ⟨root, -, rfl⟩ := Option.map_eq_some_iff.mp ((hexec s.root).symm.trans hu)
    have hnext : next s.current stmt = [] := ih hrun
    cases stmt with
    | entry path key value => exact hnext
    | header path key => exact absurd hnext (List.append_ne_nil_of_right_ne_nil _ (by simp))
    | arrayHeader path key => exact absurd hnext (List.append_ne_nil_of_right_ne_nil _ (by simp))

/-! ### One value in place of another -/

/-- What two roots have in common that are the same but at one key: there both have a value, or both
a table. -/
structure Agree (key : String) (isLeaf : Prop) (root root' : Entries) : Prop where
  other : ∀ k ≠ key, root.lookup k = root'.lookup k
  both : ∃ node node', root.lookup key = some node ∧ root'.lookup key = some node' ∧
    (node.IsLeaf ↔ isLeaf) ∧ (node'.IsLeaf ↔ isLeaf)

variable {isLeaf : Prop}

theorem Agree.set {key first : String} {root root' : Entries} (h : Agree key isLeaf root root')
    (hfirst : first ≠ key) (node : Node) :
    Agree key isLeaf (setEntry first node root) (setEntry first node root') where
  other k hk := by
    by_cases hkey : k = first
    · rw [hkey, lookup_setEntry_self, lookup_setEntry_self]
    · rw [lookup_setEntry_of_ne hkey, lookup_setEntry_of_ne hkey, h.other k hk]
  both := by
    rw [lookup_setEntry_of_ne hfirst.symm, lookup_setEntry_of_ne hfirst.symm]
    exact h.both

theorem Agree.of_setEntry (key : String) (root : Entries) {node node' : Node}
    (h : node.IsLeaf ↔ isLeaf) (h' : node'.IsLeaf ↔ isLeaf) :
    Agree key isLeaf (setEntry key node root) (setEntry key node' root) where
  other k hk := by rw [lookup_setEntry_of_ne hk, lookup_setEntry_of_ne hk]
  both := ⟨node, node', lookup_setEntry_self .., lookup_setEntry_self .., h, h'⟩

/-- **The same statement keeps two roots alike.** -/
theorem exec_agree {key : String} {root root' : Entries} (h : Agree key isLeaf root root')
    {current : List String} {stmt : Stmt} {s s' : State}
    (hs : exec ⟨root, current⟩ stmt = some s) (hs' : exec ⟨root', current⟩ stmt = some s') :
    s.current = s'.current ∧ Agree key isLeaf s.root s'.root := by
  obtain ⟨f, first, g, hg, hexec⟩ := exec_changesAt current stmt
  rw [hexec, hg.eq] at hs hs'
  obtain ⟨r, hr, rfl⟩ := Option.map_eq_some_iff.mp hs
  obtain ⟨r', hr', rfl⟩ := Option.map_eq_some_iff.mp hs'
  obtain ⟨node, hnode, rfl⟩ := Option.map_eq_some_iff.mp hr
  obtain ⟨node', hnode', rfl⟩ := Option.map_eq_some_iff.mp hr'
  refine ⟨rfl, ?_⟩
  by_cases hfirst : first = key
  · subst hfirst
    obtain ⟨old, old', hold, hold', hleaf, -⟩ := h.both
    rw [hold] at hnode
    rw [hold'] at hnode'
    have hnot : ¬ isLeaf := fun hisLeaf => by
      cases old with
      | leaf v => exact nomatch (hg.leaf v).symm.trans hnode
      | table kind sub => exact hleaf.mpr hisLeaf
      | tables elements => exact hleaf.mpr hisLeaf
    refine ⟨fun k hk => ?_, node, node', lookup_setEntry_self .., lookup_setEntry_self ..,
      iff_of_false (hg.table hnode) hnot, iff_of_false (hg.table hnode') hnot⟩
    rw [lookup_setEntry_of_ne hk, lookup_setEntry_of_ne hk, h.other k hk]
  · rw [← h.other first hfirst, hnode] at hnode'
    obtain rfl := Option.some.inj hnode'
    exact h.set hfirst node

theorem run_agree {key : String} {s s' : State} (hcurrent : s.current = s'.current)
    (h : Agree key isLeaf s.root s'.root) {stmts : List Stmt} {t t' : State}
    (ht : run s stmts = some t) (ht' : run s' stmts = some t') :
    t.current = t'.current ∧ Agree key isLeaf t.root t'.root := by
  induction stmts generalizing s s' with
  | nil =>
    obtain rfl := Option.some.inj ht
    obtain rfl := Option.some.inj ht'
    exact ⟨hcurrent, h⟩
  | cons stmt stmts ih =>
    rw [run_cons] at ht ht'
    obtain ⟨u, hu, hrun⟩ := Option.bind_eq_some_iff.mp ht
    obtain ⟨u', hu', hrun'⟩ := Option.bind_eq_some_iff.mp ht'
    obtain ⟨root, current⟩ := s
    obtain ⟨root', current'⟩ := s'
    obtain rfl : current = current' := hcurrent
    obtain ⟨hcurrent, hagree⟩ := exec_agree h hu hu'
    exact ih hcurrent hagree hrun hrun'

/-- **No statement depends on the value of a key**, only on that it has one. -/
theorem run_isSome_of_leaf {key : String} {root root' : Entries} {v v' : Value}
    {current : List String} (hother : ∀ k ≠ key, root.lookup k = root'.lookup k)
    (hv : root.lookup key = some (.leaf v)) (hv' : root'.lookup key = some (.leaf v'))
    {stmts : List Stmt} (h : (run ⟨root, current⟩ stmts).isSome) :
    (run ⟨root', current⟩ stmts).isSome := by
  induction stmts generalizing root root' current with
  | nil => rfl
  | cons stmt stmts ih =>
    obtain ⟨f, first, g, hg, hexec⟩ := exec_changesAt current stmt
    rw [run_cons, hexec, hg.eq] at h ⊢
    have hfirst : first ≠ key := by
      rintro rfl
      rw [hv, hg.leaf] at h
      cases h
    rw [← hother first hfirst]
    cases hnode : g (root.lookup first) with
    | none => simp [hnode] at h
    | some node =>
      rw [hnode] at h
      refine ih (fun k hk => ?_) ?_ ?_ h
      · by_cases hkey : k = first
        · rw [hkey, lookup_setEntry_self, lookup_setEntry_self]
        · rw [lookup_setEntry_of_ne hkey, lookup_setEntry_of_ne hkey, hother k hk]
      · rw [lookup_setEntry_of_ne hfirst.symm, hv]
      · rw [lookup_setEntry_of_ne hfirst.symm, hv']

/-! ### Entries of the current table -/

/-- A free key of the root is set, and another is not. -/
theorem exec_entry_root (root : Entries) (key : String) (value : Value) :
    exec ⟨root, []⟩ (.entry [] key value) =
      if root.lookup key = none then some ⟨setEntry key (.leaf value) root, []⟩ else none := by
  rw [exec, descend, descend, insertKey]
  cases root.lookup key with
  | none => rfl
  | some node => rfl

/-- The value of a key of the root. -/
def valueOf (root : Entries) (key : String) : Option Value :=
  match root.lookup key with
  | some (.leaf v) => some v
  | _ => none

theorem valueOf_of_not_isLeaf {root : Entries} {key : String} {node : Node}
    (h : root.lookup key = some node) (hnot : ¬ node.IsLeaf) : valueOf root key = none := by
  rw [valueOf, h]
  cases node with
  | leaf v => exact absurd trivial hnot
  | table kind sub => rfl
  | tables elements => rfl

theorem Agree.valueOf_eq {key k : String} {root root' : Entries} (h : Agree key isLeaf root root')
    (hk : k ≠ key ∨ ¬ isLeaf) : valueOf root k = valueOf root' k := by
  by_cases hkey : k = key
  · subst hkey
    have hnot := hk.resolve_left fun hne => hne rfl
    obtain ⟨node, node', hnode, hnode', hleaf, hleaf'⟩ := h.both
    rw [valueOf_of_not_isLeaf hnode (mt hleaf.mp hnot),
      valueOf_of_not_isLeaf hnode' (mt hleaf'.mp hnot)]
  · rw [valueOf, valueOf, h.other k hkey]

/-- An entry of another table is no value of the root. -/
theorem exec_entry_table {root : Entries} {current : List String} (hcurrent : current ≠ [])
    {path : List String} {key : String} {value : Value} {s : State}
    (h : exec ⟨root, current⟩ (.entry path key value) = some s) :
    s.current = current ∧ ∀ k, valueOf s.root k = valueOf root k := by
  obtain ⟨first, rest, rfl⟩ := List.exists_cons_of_ne_nil hcurrent
  obtain ⟨g, hg, hnot⟩ := descend_cons false (descend true (insertKey key value) path) first rest
  rw [exec, hg.eq] at h
  obtain ⟨r, hr, rfl⟩ := Option.map_eq_some_iff.mp h
  obtain ⟨node, hnode, rfl⟩ := Option.map_eq_some_iff.mp hr
  refine ⟨rfl, fun k => ?_⟩
  by_cases hk : k = first
  · subst hk
    rw [valueOf_of_not_isLeaf (lookup_setEntry_self ..) (hnot hnode), valueOf]
    split
    · rename_i v hv
      rw [hv, hg.leaf] at hnode
      cases hnode
    · rfl
  · rw [valueOf, valueOf, lookup_setEntry_of_ne hk]

/-- **Another value may be written for a key of the root.** -/
theorem build_replace {xs ys : List Stmt} {key : String} {v w : Value} {s : State}
    (hs : build (xs ++ .entry [] key v :: ys) = some s) (hcurrent : s.current = []) :
    ∃ s', build (xs ++ .entry [] key w :: ys) = some s' := by
  rw [build, run_append] at hs ⊢
  obtain ⟨⟨root, current⟩, hxs, hrun⟩ := Option.bind_eq_some_iff.mp hs
  obtain rfl : current = [] := run_current hrun hcurrent
  rw [hxs, Option.bind_some, run_cons, exec_entry_root]
  rw [run_cons, exec_entry_root] at hrun
  split at hrun
  · rename_i hfree
    rw [if_pos hfree, Option.bind_some]
    rw [Option.bind_some] at hrun
    refine Option.isSome_iff_exists.mp (run_isSome_of_leaf (fun k hk => ?_)
      (lookup_setEntry_self key (.leaf v) root) (lookup_setEntry_self key (.leaf w) root)
      (Option.isSome_iff_exists.mpr ⟨s, hrun⟩))
    rw [lookup_setEntry_of_ne hk, lookup_setEntry_of_ne hk]
  · cases hrun

/-- Another value, wherever its key is, changes no other value of the root. -/
theorem build_replace_agree {xs ys : List Stmt} {key : String} {v w : Value} {s s' : State}
    (hs : build (xs ++ .entry [] key v :: ys) = some s)
    (hs' : build (xs ++ .entry [] key w :: ys) = some s') : s.current = s'.current ∧
      ∃ first isLeaf, Agree first isLeaf s.root s'.root ∧
        (first = key ∨ ¬ isLeaf ∧ s.current ≠ []) := by
  rw [build, run_append] at hs hs'
  obtain ⟨⟨root, current⟩, hxs, hrun⟩ := Option.bind_eq_some_iff.mp hs
  rw [hxs, Option.bind_some] at hs'
  rw [run_cons] at hrun hs'
  obtain ⟨t, ht, hrun⟩ := Option.bind_eq_some_iff.mp hrun
  obtain ⟨t', ht', hrun'⟩ := Option.bind_eq_some_iff.mp hs'
  cases current with
  | nil =>
    rw [exec_entry_root] at ht ht'
    split at ht
    · rename_i hfree
      rw [if_pos hfree] at ht'
      obtain rfl := Option.some.inj ht
      obtain rfl := Option.some.inj ht'
      have hset : Agree key True (setEntry key (.leaf v) root) (setEntry key (.leaf w) root) :=
        Agree.of_setEntry key root Iff.rfl Iff.rfl
      obtain ⟨hcurrent, hagree⟩ := run_agree (by rfl) hset hrun hrun'
      exact ⟨hcurrent, key, True, hagree, .inl rfl⟩
    · cases ht
  | cons first rest =>
    obtain ⟨g, hg, hnot⟩ := descend_cons false (descend true (insertKey key v) []) first rest
    obtain ⟨g', hg', hnot'⟩ := descend_cons false (descend true (insertKey key w) []) first rest
    rw [exec, hg.eq] at ht
    rw [exec, hg'.eq] at ht'
    obtain ⟨r, hr, rfl⟩ := Option.map_eq_some_iff.mp ht
    obtain ⟨r', hr', rfl⟩ := Option.map_eq_some_iff.mp ht'
    obtain ⟨node, hnode, rfl⟩ := Option.map_eq_some_iff.mp hr
    obtain ⟨node', hnode', rfl⟩ := Option.map_eq_some_iff.mp hr'
    have hset : Agree first False (setEntry first node root) (setEntry first node' root) :=
      Agree.of_setEntry first root (iff_of_false (hnot hnode) id) (iff_of_false (hnot' hnode') id)
    obtain ⟨hcurrent, hagree⟩ := run_agree (by rfl) hset hrun hrun'
    exact ⟨hcurrent, first, False, hagree,
      .inr ⟨id, fun hnil => List.cons_ne_nil first rest (run_current hrun hnil)⟩⟩

end TomlText
