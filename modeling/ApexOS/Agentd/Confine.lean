import ApexOS.Agentd.Policy
import ApexOS.Lib.PathWalk

/-!
# Writes confined to the workspace

`confine_fs` and `canonicalize_lenient` of `apexos-confine`, and `workspace_decision`, over a file
system with any links. A path that leads nowhere yet is resolved up to its last ancestor that leads
somewhere, and the rest is appended as it is written. A link whose target is not there yet leads
nowhere, so that its name is appended, although opening it makes the target.

## Main definitions

* `canonicalizeLenient`, `confineFs`, `workspaceDecision`: the program
* `Passes`: a path for which one of the two callers says yes
* `Dangles`: a path whose last name is a link in the workspace to a place where nothing is yet

## Main results

* `canonicalizeLenient_room`: what is resolved of a path that leads nowhere yet
* `confined_iff`: when a path that passes is written in the workspace
-/

namespace ApexOS.Agentd.Confine

open PathWalk

/-- A component of a path. -/
inductive Component
  | rootDir
  | curDir
  | parentDir
  | normal (n : String)
  deriving DecidableEq, Repr

/-- `Path::components`. -/
def components (path : Path) : List Component :=
  (if path.absolute then [.rootDir] else []) ++ path.lead.map (fun _ => .curDir) ++
    path.pieces.filterMap fun piece => match piece with
      | .empty | .dot => none
      | .dotdot => some .parentDir
      | .name n => some (.normal n)

/-- A canonical path: the names from the root on. -/
abbrev Place := List String

/-- A canonical path, as it is written. -/
def written (place : Place) : Path := ⟨true, place.map .name⟩

/-- `Path::starts_with`. -/
def startsWith (place : Place) (root : Path) : Bool :=
  (components root).isPrefixOf (components (written place))

/-- `has_traversal`. -/
def hasTraversal (path : Path) : Bool := (components path).contains .parentDir

/-- The loop of `canonicalize_lenient`. -/
def canonicalizeUp (fs : FileSystem) (suffix : List String) (cur : Path) : Option Place :=
  match _h : cur.parent with
  | none => none
  | some parent =>
    let suffix := cur.fileName.toList ++ suffix
    match fs.canonicalize parent with
    | some c => some (c ++ suffix)
    | none => canonicalizeUp fs suffix parent
  termination_by cur.pieces.length
  decreasing_by exact Path.parent_lt ‹_›

/-- `canonicalize_lenient`. -/
def canonicalizeLenient (fs : FileSystem) (path : Path) : Option Place :=
  (fs.canonicalize path).or (canonicalizeUp fs [] path)

/-- `Access`. -/
inductive Access
  | read
  | write
  deriving DecidableEq, Repr

/-- `Denied`. -/
inductive Denied
  | traversal
  | unresolvable (path : Path)
  | outsideWorkspace (workspace : Path) (path : Place)
  | secret (path : Place)
  | outsideReadAllowlist (path : Place)
  deriving DecidableEq, Repr

/-- `confine_fs`. -/
def confineFs (fs : FileSystem) (requested : Path) (access : Access) (workspace : Path)
    (readRoots : List Path) (isSecret : Place → Bool) : Except Denied Place :=
  if hasTraversal requested then .error .traversal
  else match canonicalizeLenient fs requested with
    | none => .error (.unresolvable requested)
    | some canon =>
      if isSecret canon then .error (.secret canon)
      else if startsWith canon workspace then .ok canon
      else match access with
        | .write => .error (.outsideWorkspace workspace canon)
        | .read =>
          if readRoots.any fun root =>
              startsWith canon (((fs.canonicalize root).map written).getD root) then .ok canon
          else .error (.outsideReadAllowlist canon)

/-- Whether the text has two dots in a row: between slashes, or in a name. -/
def containsDots (path : Path) : Bool :=
  path.pieces.any fun piece => match piece with
    | .dotdot => true
    | .name n => decide ("..".toList <:+: n.toList)
    | _ => false

/-- `workspace_decision`; `workspace` is what `AGENTD_WORKSPACE` is set to. -/
def workspaceDecision (fs : FileSystem) (workspace path : Option Path) : Decision :=
  match path with
  | none => .ask
  | some p =>
    if containsDots p then .ask
    else match workspace with
      | none => .ask
      | some ws =>
        if ws.isEmpty then .ask
        else match canonicalizeLenient fs p with
          | none => .ask
          | some target =>
            if startsWith target (((fs.canonicalize ws).map written).getD ws) then .allow else .ask

/-- A path for which one of the callers says yes: `confine_fs` with the workspace, or the decision
with a setting that leads to it. -/
def Passes (fs : FileSystem) (workspace : Place) (isSecret : Place → Bool) (requested : Path) :
    Prop :=
  (∃ roots canon, confineFs fs requested .write (written workspace) roots isSecret = .ok canon) ∨
    ∃ setting, fs.canonicalize setting = some workspace ∧
      workspaceDecision fs (some setting) (some requested) = .allow

/-- **Writes are confined** to the workspace. -/
def Confined (fs : FileSystem) (workspace : Place) (isSecret : Place → Bool) (requested : Path) :
    Prop :=
  Passes fs workspace isSecret requested →
    ∀ place, fs.openLocation requested = some place → workspace <+: place

/-- The last name of the path is a link in the workspace, to a place where nothing is yet. -/
structure Dangles (fs : FileSystem) (workspace : Place) (requested : Path) (d : Place) (n : String)
    (place : Place) : Prop where
  parent : requested.parent.bind fs.canonicalize = some d
  fileName : requested.fileName = some n
  link : ∃ target, fs.tree.at? (d ++ [n]) = some (.link target)
  room : fs.resolve requested = some (.room place)
  inside : workspace <+: d ++ [n]

/-! ### The checks -/

theorem components_written (place : Place) :
    components (written place) = .rootDir :: place.map .normal := by
  have hlead : (written place).lead = [] := if_neg nofun
  rw [components, hlead, written]
  simp [List.filterMap_map]

theorem startsWith_written_iff {place workspace : Place} :
    startsWith place (written workspace) = true ↔ workspace <+: place := by
  rw [startsWith, components_written, components_written, List.isPrefixOf_iff_prefix,
    List.cons_prefix_cons, List.prefix_map_iff_of_injective fun a b h => Component.normal.inj h]
  exact and_iff_right rfl

variable {fs : FileSystem} {workspace : Place} {isSecret : Place → Bool} {requested : Path}

theorem confineFs_write_eq_ok_iff {roots : List Path} {canon : Place} :
    confineFs fs requested .write (written workspace) roots isSecret = .ok canon ↔
      hasTraversal requested = false ∧ canonicalizeLenient fs requested = some canon ∧
        isSecret canon = false ∧ workspace <+: canon := by
  rw [confineFs, ← startsWith_written_iff]
  constructor
  · intro h
    split at h
    · cases h
    · rename_i htraversal
      split at h
      · cases h
      · rename_i c hlenient
        split at h
        · cases h
        · rename_i hsecret
          split at h
          · rename_i hstarts
            obtain rfl := Except.ok.inj h
            exact ⟨Bool.eq_false_iff.mpr htraversal, hlenient,
              Bool.eq_false_iff.mpr hsecret, hstarts⟩
          · cases h
  · rintro ⟨htraversal, hlenient, hsecret, hstarts⟩
    simp [htraversal, hlenient, hsecret, hstarts]

theorem workspaceDecision_eq_allow_iff {setting : Path}
    (hsetting : fs.canonicalize setting = some workspace) :
    workspaceDecision fs (some setting) (some requested) = .allow ↔
      containsDots requested = false ∧ ∃ canon, canonicalizeLenient fs requested = some canon ∧
        workspace <+: canon := by
  have hempty : setting.isEmpty = false := by
    by_contra hempty
    rw [Bool.not_eq_false] at hempty
    rw [FileSystem.canonicalize, FileSystem.resolve, if_pos hempty] at hsetting
    cases hsetting
  simp only [workspaceDecision, hempty, hsetting, Option.map_some, Option.getD_some,
    ← startsWith_written_iff]
  constructor
  · intro h
    split at h
    · cases h
    · rename_i hdots
      simp only [Bool.false_eq_true, if_false] at h
      split at h
      · cases h
      · rename_i canon hlenient
        split at h
        · rename_i hstarts
          exact ⟨Bool.eq_false_iff.mpr hdots, canon, hlenient, hstarts⟩
        · cases h
  · rintro ⟨hdots, canon, hlenient, hstarts⟩
    simp [hdots, hlenient, hstarts]

/-! ### What is resolved -/

/-- A path that leads somewhere is resolved to that place. -/
theorem canonicalizeLenient_of_canonicalize {c : Place} (h : fs.canonicalize requested = some c) :
    canonicalizeLenient fs requested = some c := by
  rw [canonicalizeLenient, h, Option.some_or]

/-- A path that does not, but whose parent does, is resolved to its last name there. -/
theorem canonicalizeLenient_of_parent {d : Place} {n : String}
    (h : fs.canonicalize requested = none)
    (hparent : requested.parent.bind fs.canonicalize = some d)
    (hname : requested.fileName = some n) :
    canonicalizeLenient fs requested = some (d ++ [n]) := by
  obtain ⟨parent, hparent, hd⟩ := Option.bind_eq_some_iff.mp hparent
  rw [canonicalizeLenient, h, Option.none_or, canonicalizeUp]
  split
  · rename_i hnone
    rw [hparent] at hnone
    cases hnone
  · rename_i parent' hparent'
    obtain rfl := Option.some.inj (hparent.symm.trans hparent')
    rw [hd, hname]
    rfl

/-- A single name, of a path without a directory, is not resolved. -/
theorem canonicalizeLenient_of_isEmpty {parent : Path} (h : fs.canonicalize requested = none)
    (hparent : requested.parent = some parent) (hempty : parent.isEmpty = true) :
    canonicalizeLenient fs requested = none := by
  have hnone : fs.canonicalize parent = none := by
    rw [FileSystem.canonicalize, FileSystem.resolve, if_pos hempty]
  rw [canonicalizeLenient, h, Option.none_or, canonicalizeUp]
  split
  · rfl
  · rename_i parent' hparent'
    obtain rfl := Option.some.inj (hparent.symm.trans hparent')
    simp only [hnone]
    rw [canonicalizeUp]
    split
    · rfl
    · rename_i hsome
      rw [Path.parent_of_isEmpty hempty] at hsome
      cases hsome

/-- **What is resolved of a path that leads nowhere yet**: the place where the file is made, unless
the last name of the path is a link. -/
theorem canonicalizeLenient_room {place canon : Place}
    (hroom : fs.resolve requested = some (.room place))
    (h : canonicalizeLenient fs requested = some canon) : canon = place ∨
      ∃ d n, canon = d ++ [n] ∧ requested.parent.bind fs.canonicalize = some d ∧
        requested.fileName = some n ∧ ∃ target, fs.tree.at? (d ++ [n]) = some (.link target) := by
  have hnone := FileSystem.canonicalize_eq_none_of_room hroom
  obtain ⟨parent, n, hparent, hname, hempty | ⟨d, hd, hend⟩⟩ := FileSystem.resolve_room hroom
  · rw [canonicalizeLenient_of_isEmpty hnone hparent hempty] at h
    cases h
  · have hbind : requested.parent.bind fs.canonicalize = some d := by rw [hparent]; exact hd
    rw [canonicalizeLenient_of_parent hnone hbind hname] at h
    obtain rfl := Option.some.inj h
    obtain ⟨-, rfl⟩ | hlink := hend
    · exact .inl rfl
    · exact .inr ⟨d, n, rfl, hbind, hname, hlink⟩

/-- What both callers have looked at. -/
theorem Passes.inside (h : Passes fs workspace isSecret requested) : ∃ canon,
    canonicalizeLenient fs requested = some canon ∧ workspace <+: canon ∧
      ((hasTraversal requested = false ∧ isSecret canon = false) ∨
        containsDots requested = false) := by
  rcases h with ⟨roots, canon, hok⟩ | ⟨setting, hsetting, hallow⟩
  · obtain ⟨htraversal, hlenient, hsecret, hinside⟩ := confineFs_write_eq_ok_iff.mp hok
    exact ⟨canon, hlenient, hinside, .inl ⟨htraversal, hsecret⟩⟩
  · obtain ⟨hdots, canon, hlenient, hinside⟩ := (workspaceDecision_eq_allow_iff hsetting).mp hallow
    exact ⟨canon, hlenient, hinside, .inr hdots⟩

/-- **When writes are confined**: unless the last name of the path is a link in the workspace to a
place outside, at which nothing is yet, and one of the callers does not refuse it for another
reason. -/
theorem confined_iff (fs : FileSystem) (workspace : Place) (isSecret : Place → Bool)
    (requested : Path) (hworkspace : fs.canonicalize (written workspace) = some workspace) :
    Confined fs workspace isSecret requested ↔
      ∀ d n place, Dangles fs workspace requested d n place →
        (hasTraversal requested = false ∧ isSecret (d ++ [n]) = false) ∨
          containsDots requested = false → workspace <+: place := by
  constructor
  · rintro hconfined d n place hdangles hchecks
    have hlenient := canonicalizeLenient_of_parent
      (FileSystem.canonicalize_eq_none_of_room hdangles.room) hdangles.parent hdangles.fileName
    refine hconfined ?_ place ?_
    · rcases hchecks with ⟨htraversal, hsecret⟩ | hdots
      · exact .inl ⟨[], d ++ [n],
          confineFs_write_eq_ok_iff.mpr ⟨htraversal, hlenient, hsecret, hdangles.inside⟩⟩
      · exact .inr ⟨written workspace, hworkspace, (workspaceDecision_eq_allow_iff hworkspace).mpr
          ⟨hdots, d ++ [n], hlenient, hdangles.inside⟩⟩
    · rw [FileSystem.openLocation, hdangles.room]
  · intro hcondition hpasses place hopen
    obtain ⟨canon, hlenient, hinside, hchecks⟩ := hpasses.inside
    rw [FileSystem.openLocation] at hopen
    split at hopen
    · rename_i there hentry
      have hcanon : fs.canonicalize requested = some there := by
        rw [FileSystem.canonicalize, hentry]
      rw [canonicalizeLenient_of_canonicalize hcanon] at hlenient
      obtain rfl := Option.some.inj hlenient
      split at hopen
      · obtain rfl := Option.some.inj hopen
        exact hinside
      · cases hopen
    · rename_i there hroom
      obtain rfl := Option.some.inj hopen
      rcases canonicalizeLenient_room hroom hlenient with rfl | ⟨d, n, rfl, hparent, hname, hlink⟩
      · exact hinside
      · exact hcondition d n there ⟨hparent, hname, hlink, hroom, hinside⟩ hchecks
    · cases hopen

/-- A workspace with a link to a place outside where nothing is yet. -/
def linked : FileSystem where
  tree := .dir [("ws", .dir [("link", .link ⟨true, [.name "out", .name "new"]⟩)]), ("out", .dir [])]
  cwd := []
  limit := 40

theorem confined_iff_new :
    Confined linked ["ws"] (fun _ => false) ⟨true, [.name "ws", .name "new"]⟩ := by
  refine (confined_iff linked ["ws"] (fun _ => false) _ (by decide)).mpr
    fun d n place hdangles _ => ?_
  have hd : d = ["ws"] := Option.some.inj (hdangles.parent.symm.trans (by decide))
  have hn : n = "new" := Option.some.inj (hdangles.fileName.symm.trans (by decide))
  obtain ⟨target, hlink⟩ := hdangles.link
  rw [hd, hn] at hlink
  cases hlink

/-- Both callers say yes to the link, and opening it makes a file outside. -/
theorem not_confined_link : linked.canonicalize (written ["ws"]) = some ["ws"] ∧
    ¬ Confined linked ["ws"] (fun _ => false) ⟨true, [.name "ws", .name "link"]⟩ := by
  refine ⟨by decide, fun hconfined => ?_⟩
  have hlenient : canonicalizeLenient linked ⟨true, [.name "ws", .name "link"]⟩ =
      some (["ws"] ++ ["link"]) :=
    canonicalizeLenient_of_parent (by decide) (by decide) (by decide)
  have hok : confineFs linked ⟨true, [.name "ws", .name "link"]⟩ .write (written ["ws"]) []
      (fun _ => false) = .ok (["ws"] ++ ["link"]) :=
    confineFs_write_eq_ok_iff.mpr ⟨by decide, hlenient, rfl, by decide⟩
  exact absurd (hconfined (.inl ⟨[], _, hok⟩) ["out", "new"] (by decide)) (by decide)

end ApexOS.Agentd.Confine
