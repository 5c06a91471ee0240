import ApexOS.Agentd.Login
import ApexOS.Lib.Run
import ApexOS.Mesh.Types
import Mathlib.Logic.Equiv.List

/-!
# The registry of profiles and its file

`Identities` of `agentd/crates/core/src/identity.rs`: the profiles of a device and its agents, in
memory and in `identities.toml`. A change is written before it is made; a write goes through a
second file that is then renamed, or in place where that is not permitted, and only the latter can
be cut short. A boot that finds a file it cannot parse moves it aside and does not write again.
Whoever waits for the lock may come next, and the daemon may be gone at any time.

## Main definitions

* `seedDefaults`: what a boot adds
* `writeConfigAtomic`, `Device.save`: a write, and how it can end
* `Device.bootLoad`, `Device.step`: boots and changes

## Main results

* `loaded_eq`: a boot loads what was committed last, unless a write in place was cut short
* `refused_kept`: what a boot refused is never lost, and nothing is written over it
-/

namespace ApexOS.Agentd.Identities

/-- `DEFAULT_AGENT_ID`. -/
def defaultAgentId : String := "APEX"

/-- `User`. -/
structure User where
  id : String
  name : String
  pinHash : Option String
  pinSalt : Option String
  defaultAgent : Option String
  defaultSkin : Option String
  deriving DecidableEq

/-- `AgentRecord`. -/
structure AgentRecord where
  id : String
  name : String
  owner : String
  soulFile : String
  defaultSkin : Option String
  deriving DecidableEq

/-- `Identities`, but for `persist_blocked`, which is not written. -/
structure Registry where
  defaultUser : Option String
  users : List User
  agents : List AgentRecord
  deriving DecidableEq

namespace Registry

/-- `Identities::default`. -/
def empty : Registry := ⟨none, [], []⟩

variable (ids : Registry)

/-- `Identities::user`. -/
def user (id : String) : Option User := ids.users.find? fun u => u.id = id

/-- `Identities::agent`. -/
def agent (id : String) : Option AgentRecord := ids.agents.find? fun a => a.id = id

/-- `Identities::seed_defaults`: what it makes of the registry, and whether anything was added. -/
def seedDefaults (apexSoulFile : String) : Registry × Bool :=
  let noUser := (ids.user Login.defaultUserId).isNone
  let noAgent := (ids.agent defaultAgentId).isNone
  let owner : User := ⟨Login.defaultUserId, "Owner", none, none, none, none⟩
  let apex : AgentRecord :=
    ⟨defaultAgentId, defaultAgentId, Login.defaultUserId, apexSoulFile, none⟩
  ({ ids with
    users := if noUser then ids.users ++ [owner] else ids.users
    agents := if noAgent then ids.agents ++ [apex] else ids.agents }, noUser || noAgent)

theorem seedDefaults_of_unchanged {apexSoulFile : String}
    (h : (ids.seedDefaults apexSoulFile).2 = false) : (ids.seedDefaults apexSoulFile).1 = ids := by
  obtain ⟨huser, hagent⟩ := Bool.or_eq_false_iff.mp h
  simp only [seedDefaults, huser, hagent, Bool.false_eq_true, if_false]

/-- What was added is there. -/
theorem seedDefaults_seedDefaults (apexSoulFile : String) :
    ((ids.seedDefaults apexSoulFile).1.seedDefaults apexSoulFile).1 =
      (ids.seedDefaults apexSoulFile).1 := by
  refine seedDefaults_of_unchanged _ (Bool.or_eq_false_iff.mpr ⟨?_, ?_⟩)
  · cases h : (ids.user Login.defaultUserId).isNone with
    | true =>
      simp only [seedDefaults, h, if_true]
      simp [user]
    | false =>
      simp only [seedDefaults, h, Bool.false_eq_true, if_false]
      exact h
  · cases h : (ids.agent defaultAgentId).isNone with
    | true =>
      simp only [seedDefaults, h, if_true]
      simp [agent]
    | false =>
      simp only [seedDefaults, h, Bool.false_eq_true, if_false]
      exact h

end Registry

/-! ### The file -/

/-- What becomes of the bytes of a file: `Io` is also the answer where they are no text. -/
inductive Reading
  | whole (ids : Registry)
  | parse
  | io
  deriving DecidableEq

/-- The `toml` crate on a registry: what it writes it reads back. -/
structure Toml where
  toStringPretty : Registry → Bytes
  fromStr : Bytes → Reading
  fromStr_toStringPretty (ids : Registry) : fromStr (toStringPretty ids) = .whole ids

/-- How a write ends: the second file is renamed; the file is written in place, wholly or up to
some byte; nothing is written. -/
inductive Write
  | renamed
  | inPlace
  | cut (k : ℕ)
  | failed
  deriving DecidableEq

/-- The write answers `Ok`. -/
def Write.isOk : Write → Bool
  | renamed | inPlace => true
  | cut _ | failed => false

/-- `write_config_atomic`. -/
def writeConfigAtomic (file : Option Bytes) (bytes : Bytes) : Write → Option Bytes
  | .renamed | .inPlace => some bytes
  | .cut k => some (bytes.take k)
  | .failed => file

/-- The registry in memory. -/
structure Daemon where
  identities : Registry
  persistBlocked : Bool
  deriving DecidableEq

/-- The file, what was moved aside (`identities.toml.corrupt`, or with the seconds after it), and
the daemon where it runs. -/
structure Device where
  file : Option Bytes
  corrupt : Table (Option ℕ) Bytes
  daemon : Option Daemon

inductive Input
  | boot (now : ℕ) (unread moved : Bool) (write : Write)
  | commit (next : Registry) (write : Write)
  | stop
  deriving DecidableEq

inductive Output
  | loaded (ids : Registry)
  | refused (bytes : Bytes)
  | unread
  | committed (ids : Registry)
  | failed
  | stopped
  deriving DecidableEq

namespace Device

variable (toml : Toml) (apexSoulFile : String) (d : Device)

/-- `Identities::save`. -/
def save (m : Daemon) (write : Write) : Device × Bool :=
  if m.persistBlocked then (d, false)
  else
    ({ d with file := writeConfigAtomic d.file (toml.toStringPretty m.identities) write },
      write.isOk)

/-- `Identities::quarantine`; `moved` is whether the rename was made. -/
def quarantine (bytes : Bytes) (now : ℕ) (moved : Bool) : Device :=
  let dest := if d.corrupt.contains none then some now else none
  if moved then { d with file := none, corrupt := d.corrupt.insert dest bytes } else d

/-- `Identities::boot_load`. -/
def bootLoad (now : ℕ) (unread moved : Bool) (write : Write) : Device × Output :=
  match d.file with
  | none =>
    let m : Daemon := ⟨(Registry.empty.seedDefaults apexSoulFile).1, false⟩
    ({ (d.save toml m write).1 with daemon := some m }, .loaded m.identities)
  | some bytes =>
    match if unread then .io else toml.fromStr bytes with
    | .whole ids =>
      let m : Daemon := ⟨(ids.seedDefaults apexSoulFile).1, false⟩
      let d := if (ids.seedDefaults apexSoulFile).2 then (d.save toml m write).1 else d
      ({ d with daemon := some m }, .loaded m.identities)
    | .parse =>
      ({ d.quarantine bytes now moved with daemon := some ⟨.empty, true⟩ }, .refused bytes)
    | .io => ({ d with daemon := some ⟨.empty, true⟩ }, .unread)

/-- `Identities::commit`. -/
def commit (next : Registry) (write : Write) : Device × Output :=
  match d.daemon with
  | none => (d, .failed)
  | some m =>
    let next : Daemon := ⟨next, m.persistBlocked⟩
    let (d, ok) := d.save toml next write
    -- a daemon that is gone between the two is gone after them: the file is what is left
    if ok then ({ d with daemon := some next }, .committed next.identities) else (d, .failed)

def step : Input → Device × Output
  | .boot now unread moved write => d.bootLoad toml apexSoulFile now unread moved write
  | .commit next write => d.commit toml next write
  | .stop => ({ d with daemon := none }, .stopped)

end Device

/-! ### A registry as numbers

A text for every registry, and what is read of it: a device to run the model on. -/

/-- The letters of a text. -/
def letters (s : String) : List ℕ := s.toList.map Char.toNat

def ofLetters (l : List ℕ) : String := String.ofList (l.map Char.ofNat)

theorem ofLetters_letters (s : String) : ofLetters (letters s) = s := by
  simp [ofLetters, letters, Function.comp_def]

theorem map_ofLetters (o : Option String) : (o.map letters).map ofLetters = o := by
  cases o with
  | none => rfl
  | some s => exact congrArg some (ofLetters_letters s)

abbrev Letters := List ℕ

abbrev UserFields :=
  Letters × Letters × Option Letters × Option Letters × Option Letters × Option Letters

abbrev AgentFields := Letters × Letters × Letters × Letters × Option Letters

def User.fields (u : User) : UserFields :=
  (letters u.id, letters u.name, u.pinHash.map letters, u.pinSalt.map letters,
    u.defaultAgent.map letters, u.defaultSkin.map letters)

def User.ofFields : UserFields → User
  | (id, name, pinHash, pinSalt, agent, skin) =>
    ⟨ofLetters id, ofLetters name, pinHash.map ofLetters, pinSalt.map ofLetters,
      agent.map ofLetters, skin.map ofLetters⟩

theorem User.ofFields_fields (u : User) : User.ofFields u.fields = u := by
  simp only [User.fields, User.ofFields, ofLetters_letters, map_ofLetters]

def AgentRecord.fields (a : AgentRecord) : AgentFields :=
  (letters a.id, letters a.name, letters a.owner, letters a.soulFile, a.defaultSkin.map letters)

def AgentRecord.ofFields : AgentFields → AgentRecord
  | (id, name, owner, soulFile, skin) =>
    ⟨ofLetters id, ofLetters name, ofLetters owner, ofLetters soulFile, skin.map ofLetters⟩

theorem AgentRecord.ofFields_fields (a : AgentRecord) : AgentRecord.ofFields a.fields = a := by
  simp only [AgentRecord.fields, AgentRecord.ofFields, ofLetters_letters, map_ofLetters]

abbrev RegistryFields := Option Letters × List UserFields × List AgentFields

def Registry.fields (ids : Registry) : RegistryFields :=
  (ids.defaultUser.map letters, ids.users.map User.fields, ids.agents.map AgentRecord.fields)

def Registry.ofFields : RegistryFields → Registry
  | (user, users, agents) =>
    ⟨user.map ofLetters, users.map User.ofFields, agents.map AgentRecord.ofFields⟩

theorem Registry.ofFields_fields (ids : Registry) : Registry.ofFields ids.fields = ids := by
  simp only [Registry.fields, Registry.ofFields, map_ofLetters, List.map_map, Function.comp_def,
    User.ofFields_fields, AgentRecord.ofFields_fields, List.map_id']

/-- A number in strokes, after a mark. Nothing at all reads as nobody. -/
def strokes : Toml where
  toStringPretty ids := 35 :: List.replicate (Encodable.encode ids.fields) 49
  fromStr
    | [] => .whole .empty
    | 35 :: bytes => match Encodable.decode (α := RegistryFields) bytes.length with
      | some fields => .whole (.ofFields fields)
      | none => .parse
    | _ => .parse
  fromStr_toStringPretty ids := by
    simp only [List.length_replicate, Encodable.encodek, Registry.ofFields_fields]

def guest : User := ⟨"guest", "Guest", none, none, none, none⟩

/-! ### What a boot loads -/

abbrev Past := List (Input × Output)

def Output.committed? : Output → Option Registry
  | .committed ids => some ids
  | _ => none

/-- What was committed last. -/
def lastCommitted (past : Past) : Option Registry :=
  (past.filterMap fun x => x.2.committed?).getLast?

theorem lastCommitted_concat (past : Past) (x : Input × Output) :
    lastCommitted (past ++ [x]) = x.2.committed?.or (lastCommitted past) := by
  rw [lastCommitted, List.filterMap_append, lastCommitted]
  cases h : x.2.committed? <;> simp [h]

/-- A write in place is cut short. -/
def Input.isCut : Input → Bool
  | .boot _ _ _ (.cut _) | .commit _ (.cut _) => true
  | _ => false

/-- A device with a file, if it has one yet, and no daemon. -/
def Device.found (file : Option Bytes) : Device := ⟨file, .empty, none⟩

/-- A device whose file holds a registry, if it has one yet. -/
def Device.holding (toml : Toml) (r₀ : Option Registry) : Device :=
  .found (r₀.map toml.toStringPretty)

section

variable {toml : Toml} {apexSoulFile : String} {r₀ : Option Registry} {past : Past} {d : Device}

/-- What the file holds seeds to the same as what was committed last. -/
def Keeps (toml : Toml) (apexSoulFile : String) (last : Option Registry) (d : Device) : Prop :=
  ∃ s : Option Registry, d.file = s.map toml.toStringPretty ∧
    ((s.getD .empty).seedDefaults apexSoulFile).1 =
      ((last.getD .empty).seedDefaults apexSoulFile).1

theorem Keeps.of_file {last : Option Registry} {d' : Device} (h : Keeps toml apexSoulFile last d)
    (hfile : d'.file = d.file) : Keeps toml apexSoulFile last d' := by
  obtain ⟨s, hs, hseed⟩ := h
  exact ⟨s, hfile.trans hs, hseed⟩

/-- What a whole write leaves. -/
theorem file_save (toml : Toml) (d : Device) (m : Daemon) {write : Write}
    (hcut : ∀ k, write ≠ .cut k) :
    ((d.save toml m write).2 = true ∧ m.persistBlocked = false ∧
      (d.save toml m write).1.file = some (toml.toStringPretty m.identities)) ∨
    ((d.save toml m write).2 = false ∧ (d.save toml m write).1.file = d.file) := by
  rw [Device.save]
  cases hblocked : m.persistBlocked with
  | true => exact .inr ⟨rfl, rfl⟩
  | false =>
    cases write with
    | renamed => exact .inl ⟨rfl, rfl, rfl⟩
    | inPlace => exact .inl ⟨rfl, rfl, rfl⟩
    | cut k => exact absurd rfl (hcut k)
    | failed => exact .inr ⟨rfl, rfl⟩

/-- The file after a boot has written what it added, or has not. -/
theorem Keeps.seeded {last s : Option Registry} {write : Write}
    (hs : d.file = s.map toml.toStringPretty)
    (hseed : ((s.getD .empty).seedDefaults apexSoulFile).1 =
      ((last.getD .empty).seedDefaults apexSoulFile).1) (hcut : ∀ k, write ≠ .cut k) :
    Keeps toml apexSoulFile last
      (d.save toml ⟨((s.getD .empty).seedDefaults apexSoulFile).1, false⟩ write).1 := by
  obtain ⟨-, -, hfile⟩ | ⟨-, hfile⟩ :=
    file_save toml d ⟨((s.getD .empty).seedDefaults apexSoulFile).1, false⟩ hcut
  · refine ⟨some ((s.getD .empty).seedDefaults apexSoulFile).1, hfile, ?_⟩
    rw [Option.getD_some, Registry.seedDefaults_seedDefaults, hseed]
  · exact ⟨s, hfile.trans hs, hseed⟩

/-- A boot that can read the file. -/
theorem Keeps.loaded {last : Option Registry} (h : Keeps toml apexSoulFile last d) (now : ℕ)
    (moved : Bool) (write : Write) :
    (d.bootLoad toml apexSoulFile now false moved write).2 =
      .loaded ((last.getD .empty).seedDefaults apexSoulFile).1 := by
  obtain ⟨s, hs, hseed⟩ := h
  cases s with
  | none =>
    rw [Option.map_none] at hs
    simp only [Device.bootLoad, hs]
    exact congrArg Output.loaded hseed
  | some r =>
    rw [Option.map_some] at hs
    simp only [Device.bootLoad, hs, Bool.false_eq_true, if_false, toml.fromStr_toStringPretty]
    exact congrArg Output.loaded hseed

theorem Keeps.bootLoad {last : Option Registry} (h : Keeps toml apexSoulFile last d) (now : ℕ)
    (moved : Bool) {write : Write} (hcut : ∀ k, write ≠ .cut k) :
    Keeps toml apexSoulFile last (d.bootLoad toml apexSoulFile now false moved write).1 := by
  obtain ⟨s, hs, hseed⟩ := h
  have hseeded := Keeps.seeded hs hseed hcut
  cases s with
  | none =>
    rw [Option.map_none] at hs
    simp only [Device.bootLoad, hs]
    exact hseeded.of_file rfl
  | some r =>
    rw [Option.map_some] at hs
    simp only [Device.bootLoad, hs, Bool.false_eq_true, if_false, toml.fromStr_toStringPretty]
    cases (r.seedDefaults apexSoulFile).2 with
    | true => exact hseeded.of_file rfl
    | false => exact ⟨some r, hs, hseed⟩

theorem Keeps.step {last : Option Registry} (h : Keeps toml apexSoulFile last d) {i : Input}
    (hcut : i.isCut = false) :
    Keeps toml apexSoulFile ((d.step toml apexSoulFile i).2.committed?.or last)
      (d.step toml apexSoulFile i).1 := by
  cases i with
  | boot now unread moved write =>
    have hwhole : ∀ k, write ≠ .cut k := by
      rintro k rfl
      cases hcut
    cases unread with
    | false =>
      rw [Device.step, h.loaded]
      exact h.bootLoad now moved hwhole
    | true =>
      cases hfile : d.file with
      | none =>
        -- there is no file that could not be read
        have heq : d.bootLoad toml apexSoulFile now true moved write =
            d.bootLoad toml apexSoulFile now false moved write := by
          rw [Device.bootLoad, Device.bootLoad, hfile]
        rw [Device.step, heq, h.loaded]
        exact h.bootLoad now moved hwhole
      | some bytes =>
        have heq : d.bootLoad toml apexSoulFile now true moved write =
            ({ d with daemon := some ⟨.empty, true⟩ }, .unread) := by
          rw [Device.bootLoad, hfile]
          rfl
        rw [Device.step, heq]
        exact h.of_file rfl
  | commit next write =>
    have hwhole : ∀ k, write ≠ .cut k := by
      rintro k rfl
      cases hcut
    rw [Device.step, Device.commit]
    cases hdaemon : d.daemon with
    | none => exact h
    | some m =>
      obtain ⟨hok, -, hfile⟩ | ⟨hok, hfile⟩ := file_save toml d ⟨next, m.persistBlocked⟩ hwhole
      · simp only [hok, if_true]
        exact ⟨some next, hfile, rfl⟩
      · simp only [hok, Bool.false_eq_true, if_false]
        exact h.of_file hfile
  | stop => exact h.of_file rfl

theorem keeps_final (toml : Toml) (apexSoulFile : String) (r₀ : Option Registry) (es : List Input)
    (hwhole : ∀ i ∈ es, i.isCut = false) :
    Keeps toml apexSoulFile
      ((lastCommitted (Run.log (Device.step toml apexSoulFile) (.holding toml r₀) es)).or r₀)
      (Run.final (Device.step toml apexSoulFile) (.holding toml r₀) es) := by
  induction es using List.reverseRecOn with
  | nil => exact ⟨r₀, rfl, rfl⟩
  | append_singleton es i ih =>
    rw [Run.log_append, Run.final_append, Run.log_cons, Run.log_nil, lastCommitted_concat,
      Option.or_assoc]
    exact (ih fun j hj => hwhole j (List.mem_append_left _ hj)).step (hwhole i (by simp))

/-- **A boot loads what was committed last**, or what was there first, with what boots add: unless
a write in place was cut short. -/
theorem loaded_eq (toml : Toml) (apexSoulFile : String) (r₀ : Option Registry) (es : List Input)
    (hwhole : ∀ i ∈ es, i.isCut = false) (now : ℕ) (moved : Bool) (write : Write) :
    ((Run.final (Device.step toml apexSoulFile) (.holding toml r₀) es).step toml apexSoulFile
      (.boot now false moved write)).2 =
        .loaded ((((lastCommitted (Run.log (Device.step toml apexSoulFile) (.holding toml r₀)
          es)).or r₀).getD .empty).seedDefaults apexSoulFile).1 :=
  (keeps_final toml apexSoulFile r₀ es hwhole).loaded now moved write

/-- A profile is added, and the daemon starts anew. -/
theorem loaded_eq_guest :
    ((Run.final (Device.step strokes "soul.md") (.holding strokes none)
      [.boot 0 false false .failed, .commit ⟨none, [guest], []⟩ .inPlace, .stop]).step strokes
        "soul.md" (.boot 1 false false .renamed)).2 =
      .loaded ((⟨none, [guest], []⟩ : Registry).seedDefaults "soul.md").1 :=
  loaded_eq strokes "soul.md" none
    [.boot 0 false false .failed, .commit ⟨none, [guest], []⟩ .inPlace, .stop] (by decide) 1 false
    .renamed

/-- A write in place that is cut before its first byte leaves a file that is read, as nobody: the
next boot loads what it adds, and no PIN is known to it. -/
theorem loaded_of_cut (hempty : toml.fromStr [] = .whole .empty) {m : Daemon}
    (hdaemon : d.daemon = some m) (hm : m.persistBlocked = false) (next : Registry) (now : ℕ)
    (moved : Bool) (write : Write) :
    ((d.commit toml next (.cut 0)).1.bootLoad toml apexSoulFile now false moved write).2 =
      .loaded (Registry.empty.seedDefaults apexSoulFile).1 := by
  have hfile : (d.commit toml next (.cut 0)).1.file = some [] := by
    rw [Device.commit, hdaemon]
    simp [Device.save, hm, writeConfigAtomic, Write.isOk]
  simp only [Device.bootLoad, hfile, Bool.false_eq_true, if_false, hempty]

end

/-! ### What a boot refused -/

/-- The second in which a boot happens. -/
def Input.bootAt? : Input → Option ℕ
  | .boot now .. => some now
  | _ => none

def bootTimes (es : List Input) : List ℕ := es.filterMap Input.bootAt?

def Refused (past : Past) (bytes : Bytes) : Prop := ∃ x ∈ past, x.2 = .refused bytes

/-- Nothing is committed until the next boot. -/
def Device.Blocked (d : Device) : Prop := ∀ m, d.daemon = some m → m.persistBlocked = true

section

variable {toml : Toml} {apexSoulFile : String} {past : Past} {d : Device}

theorem refused_concat {x : Input × Output} {bytes : Bytes} :
    Refused (past ++ [x]) bytes ↔ Refused past bytes ∨ x.2 = .refused bytes := by
  simp [Refused, or_and_right, exists_or]

theorem commit_of_blocked (h : d.Blocked) (next : Registry) (write : Write) :
    d.commit toml next write = (d, .failed) := by
  rw [Device.commit]
  cases hdaemon : d.daemon with
  | none => rfl
  | some m => simp [Device.save, h m hdaemon]

/-- A change moves nothing aside and refuses nothing. -/
theorem commit_frame (d : Device) (next : Registry) (write : Write) :
    (d.commit toml next write).1.corrupt = d.corrupt ∧
      ∀ bytes, (d.commit toml next write).2 ≠ .refused bytes := by
  rw [Device.commit]
  cases d.daemon with
  | none => exact ⟨rfl, by rintro bytes ⟨⟩⟩
  | some m =>
    have hsave : (d.save toml ⟨next, m.persistBlocked⟩ write).1.corrupt = d.corrupt := by
      rw [Device.save]
      split <;> rfl
    cases hok : (d.save toml ⟨next, m.persistBlocked⟩ write).2 with
    | true =>
      simp only [hok, if_true]
      exact ⟨hsave, by rintro bytes ⟨⟩⟩
    | false =>
      simp only [hok, Bool.false_eq_true, if_false]
      exact ⟨hsave, by rintro bytes ⟨⟩⟩

/-- Where what was refused is, and what its place is called. -/
structure Kept (toml : Toml) (past : Past) (d : Device) : Prop where
  parse : ∀ bytes, Refused past bytes → toml.fromStr bytes = .parse
  refused : ∀ bytes, Refused past bytes →
    (∃ k, d.corrupt.get? k = some bytes) ∨ d.file = some bytes ∧ d.Blocked
  times : ∀ k bytes, d.corrupt.get? (some k) = some bytes → k ∈ bootTimes (past.map Prod.fst)

theorem kept_found (file : Option Bytes) : Kept toml [] (.found file) where
  parse bytes h := by
    obtain ⟨x, hx, -⟩ := h
    exact absurd hx List.not_mem_nil
  refused bytes h := by
    obtain ⟨x, hx, -⟩ := h
    exact absurd hx List.not_mem_nil
  times k bytes h := by cases h

theorem mem_bootTimes_concat {x : Input × Output} {k : ℕ} :
    k ∈ bootTimes ((past ++ [x]).map Prod.fst) ↔
      k ∈ bootTimes (past.map Prod.fst) ∨ x.1.bootAt? = some k := by
  simp [bootTimes]

/-- Nothing is refused, and nothing is moved aside. -/
theorem Kept.quiet (h : Kept toml past d) {x : Input × Output} {d' : Device}
    (hout : ∀ bytes, x.2 ≠ .refused bytes) (hcorrupt : d'.corrupt = d.corrupt)
    (hstay : ∀ bytes, d.file = some bytes → d.Blocked → toml.fromStr bytes = .parse →
      d'.file = some bytes ∧ d'.Blocked) : Kept toml (past ++ [x]) d' where
  parse bytes hbytes := h.parse bytes ((refused_concat.mp hbytes).resolve_right (hout bytes))
  refused bytes hbytes := by
    have hbytes := (refused_concat.mp hbytes).resolve_right (hout bytes)
    rw [hcorrupt]
    exact (h.refused bytes hbytes).imp_right fun hfile =>
      hstay bytes hfile.1 hfile.2 (h.parse bytes hbytes)
  times k bytes hk := by
    rw [hcorrupt] at hk
    exact mem_bootTimes_concat.mpr (.inl (h.times k bytes hk))

/-- The name that `quarantine` takes is free, where no boot happened in this second. -/
theorem Kept.get?_dest (h : Kept toml past d) {now : ℕ}
    (hnow : now ∉ bootTimes (past.map Prod.fst)) :
    d.corrupt.get? (if d.corrupt.contains none then some now else none) = none := by
  cases hcontains : d.corrupt.contains none with
  | true =>
    rw [if_pos rfl]
    cases hget : d.corrupt.get? (some now) with
    | none => rfl
    | some bytes => exact absurd (h.times now bytes hget) hnow
  | false =>
    rw [Table.contains, Option.isSome_eq_false_iff, Option.isNone_iff_eq_none] at hcontains
    exact hcontains

/-- A boot refuses the file. -/
theorem Kept.quarantine (h : Kept toml past d) {bytes : Bytes} (hfile : d.file = some bytes)
    (hparse : toml.fromStr bytes = .parse) {now : ℕ} (unread moved : Bool) (write : Write)
    (hnow : now ∉ bootTimes (past.map Prod.fst)) :
    Kept toml (past ++ [(.boot now unread moved write, .refused bytes)])
      { d.quarantine bytes now moved with daemon := some ⟨.empty, true⟩ } where
  parse bytes' h' := by
    obtain h' | h' := refused_concat.mp h'
    · exact h.parse bytes' h'
    · cases h'
      exact hparse
  refused bytes' h' := by
    have hold : (∃ k, d.corrupt.get? k = some bytes') ∨ bytes' = bytes := by
      obtain h' | h' := refused_concat.mp h'
      · refine (h.refused bytes' h').imp_right fun hstill => ?_
        exact Option.some_inj.mp (hstill.1.symm.trans hfile)
      · cases h'
        exact .inr rfl
    cases moved with
    | true =>
      -- it is moved aside, and nothing that is there makes way for it
      refine .inl ?_
      obtain ⟨k, hk⟩ | rfl := hold
      · refine ⟨k, Table.get?_insert.trans ?_⟩
        rw [if_neg, hk]
        rintro rfl
        cases (h.get?_dest hnow).symm.trans hk
      · exact ⟨_, Table.get?_insert.trans (if_pos rfl)⟩
    | false =>
      refine hold.imp_right ?_
      rintro rfl
      refine ⟨hfile, ?_⟩
      rintro m ⟨⟩
      rfl
  times k bytes' hk := by
    cases moved with
    | true =>
      have hk := Table.get?_insert.symm.trans hk
      by_cases hdest : some k = if d.corrupt.contains none then some now else none
      · split at hdest
        · cases hdest
          exact mem_bootTimes_concat.mpr (.inr rfl)
        · cases hdest
      · rw [if_neg hdest] at hk
        exact mem_bootTimes_concat.mpr (.inl (h.times k bytes' hk))
    | false => exact mem_bootTimes_concat.mpr (.inl (h.times k bytes' hk))

theorem Kept.step (h : Kept toml past d) (i : Input)
    (hnow : ∀ now, i.bootAt? = some now → now ∉ bootTimes (past.map Prod.fst)) :
    Kept toml (past ++ [(i, (d.step toml apexSoulFile i).2)]) (d.step toml apexSoulFile i).1 := by
  cases i with
  | boot now unread moved write =>
    simp only [Device.step, Device.bootLoad]
    split
    · rename_i hfile
      refine h.quiet (by rintro bytes ⟨⟩) ?_ fun bytes hbytes => by cases hfile.symm.trans hbytes
      rfl
    · rename_i bytes hfile
      split
      · rename_i ids hread
        refine h.quiet (by rintro bytes ⟨⟩) ?_ fun bytes' hbytes' _ hparse => ?_
        · split <;> rfl
        · -- what was refused is not read
          cases hfile.symm.trans hbytes'
          split at hread
          · cases hread
          · cases hread.symm.trans hparse
      · rename_i hread
        split at hread
        · cases hread
        · exact h.quarantine hfile hread unread moved write (hnow now rfl)
      · refine h.quiet (by rintro bytes ⟨⟩) rfl fun bytes' hbytes' _ _ => ⟨hbytes', ?_⟩
        rintro m ⟨⟩
        rfl
  | commit next write =>
    simp only [Device.step]
    by_cases hblocked : d.Blocked
    · rw [commit_of_blocked hblocked]
      exact h.quiet (by rintro bytes ⟨⟩) rfl fun bytes hbytes hstill _ => ⟨hbytes, hstill⟩
    · obtain ⟨hcorrupt, hout⟩ := commit_frame d next write
      exact h.quiet hout hcorrupt fun _ _ hstill => absurd hstill hblocked
  | stop =>
    refine h.quiet (by rintro bytes ⟨⟩) rfl fun bytes hbytes _ _ => ⟨hbytes, ?_⟩
    rintro m ⟨⟩

theorem kept_final (toml : Toml) (apexSoulFile : String) (file : Option Bytes) (es : List Input)
    (hclock : (bootTimes es).Nodup) :
    Kept toml (Run.log (Device.step toml apexSoulFile) (.found file) es)
      (Run.final (Device.step toml apexSoulFile) (.found file) es) := by
  induction es using List.reverseRecOn with
  | nil => exact kept_found file
  | append_singleton es i ih =>
    have hsplit : bootTimes (es ++ [i]) = bootTimes es ++ i.bootAt?.toList := by
      rw [bootTimes, List.filterMap_append, bootTimes]
      cases i <;> rfl
    rw [hsplit, List.nodup_append] at hclock
    rw [Run.log_append, Run.final_append]
    refine (ih hclock.1).step i fun now hnow hmem => ?_
    rw [Run.map_fst_log] at hmem
    refine hclock.2.2 now hmem now ?_ rfl
    rw [hnow]
    exact List.mem_singleton_self now

/-- **What a boot refused is never lost**: it lies aside, or still in its place, and then nothing is
committed over it. -/
theorem refused_kept (toml : Toml) (apexSoulFile : String) (file : Option Bytes)
    (es : List Input) (hclock : (bootTimes es).Nodup) (bytes : Bytes)
    (h : Refused (Run.log (Device.step toml apexSoulFile) (.found file) es) bytes) :
    (∃ k, (Run.final (Device.step toml apexSoulFile) (.found file) es).corrupt.get? k =
      some bytes) ∨
    (Run.final (Device.step toml apexSoulFile) (.found file) es).file = some bytes ∧
      ∀ next write, (Run.final (Device.step toml apexSoulFile) (.found file) es).commit toml next
        write = (Run.final (Device.step toml apexSoulFile) (.found file) es, .failed) := by
  have hkept := kept_final toml apexSoulFile file es hclock
  exact (hkept.refused bytes h).imp_right fun hstill => ⟨hstill.1, commit_of_blocked hstill.2⟩

/-- A boot refuses the file and cannot move it aside. A profile cannot be added. -/
def refuses : List Input :=
  [.boot 0 false false .failed, .commit ⟨none, [guest], []⟩ .renamed]

theorem refused_kept_refuses :
    (∃ k, (Run.final (Device.step strokes "soul.md") (.found (some [64])) refuses).corrupt.get? k =
      some [64]) ∨
    (Run.final (Device.step strokes "soul.md") (.found (some [64])) refuses).file = some [64] ∧
      ∀ next write, (Run.final (Device.step strokes "soul.md") (.found (some [64]))
        refuses).commit strokes next write =
          (Run.final (Device.step strokes "soul.md") (.found (some [64])) refuses, .failed) :=
  refused_kept strokes "soul.md" (some [64]) refuses (by decide) [64]
    ⟨_, List.mem_cons_self, rfl⟩

end

end ApexOS.Agentd.Identities
