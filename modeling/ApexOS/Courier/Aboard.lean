import ApexOS.Courier.Shipments

/-!
# What is aboard after a plug

A colony of nodes that share a key and carry sticks between them. A row of the outbox that a plug
loads is to be in the manifest with the bytes it says. The manifest lists a row unless something
aboard carries its shipment id, and that is taken for the row: it may be another node's, or a
cancelled row's, or the row's own with the bytes its source had at an earlier plug.

## Main definitions

* `Colony`, `Colony.step`: nodes, and sticks that go between them
* `Colony.Complete`: what every row that is loaded has aboard
* `Colony.Clear`: what is aboard under a row's shipment id is the row's

## Main results

* `Colony.complete_iff_clear`: after a plug the rows are aboard exactly when their ids were clear
-/

namespace ApexOS.Courier

/-! ### One row, with every write made -/

/-- A plug at which every write is made. -/
def PlugWorld.calm (now : String) (epoch : ℕ) (minted : String) : PlugWorld :=
  ⟨now, epoch, minted, fun _ => .made⟩

/-- The row is loaded: it is under way to another node, and its source can be read. -/
def OutboxEntry.loads (host : Host) (files : String → Source) (e : OutboxEntry) : Bool :=
  !e.skipped host && (files e.path).read.isSome

/-- The row with the bytes that its source has. -/
def OutboxEntry.current (blobRoot : Bytes → String) (files : String → Source) (e : OutboxEntry) :
    OutboxEntry :=
  (files e.path).read.elim e (e.refreshed blobRoot)

/-- The row after it is loaded. -/
def OutboxEntry.after (blobRoot : Bytes → String) (host : Host) (stickId : String)
    (files : String → Source) (e : OutboxEntry) : OutboxEntry :=
  if e.loads host files then { e.current blobRoot files with loadedOn := some stickId } else e

/-- A row that is loaded and is new to the stick. -/
def OutboxEntry.isNew (host : Host) (stickId : String) (files : String → Source)
    (e : OutboxEntry) : Bool :=
  e.loads host files && e.loadedOn ≠ some stickId

variable {blobRoot : Bytes → String} {host : Host} {stickId : String} {w : PlugWorld}
  {files : String → Source}

/-- What loading a row comes to. -/
structure Loaded (blobRoot : Bytes → String) (host : Host) (stickId : String) (w : PlugWorld)
    (files : String → Source) (e : OutboxEntry) (acc acc' : Load) : Prop where
  outbox : acc'.outbox = acc.outbox ++ [e.after blobRoot host stickId files]
  dirty : acc'.outboxDirty = (acc.outboxDirty || e.isNew host stickId files)
  /-- The row is listed unless something passes for it. -/
  manifest :
    (e.loads host files = true ∧ acc.manifest.any (e.current blobRoot files).aboard = false ∧
      acc'.manifest = acc.manifest ++ [(e.current blobRoot files).listed host w] ∧
      acc'.manifestDirty = true) ∨
    ((e.loads host files = true → acc.manifest.any (e.current blobRoot files).aboard = true) ∧
      acc'.manifest = acc.manifest ∧ acc'.manifestDirty = acc.manifestDirty)
  /-- What is aboard stays, and what comes aboard is the row's. -/
  cargo : ∀ root, acc'.cargo root = acc.cargo root ∨ ∃ bytes, acc'.cargo root = some bytes ∧
    blobRoot bytes = root
  held : ∀ root bytes, acc.cargo root = some bytes → acc'.cargo root = some bytes
  has : e.loads host files = true →
    (acc'.cargo (e.current blobRoot files).root).isSome = true

theorem root_refreshed (e : OutboxEntry) (bytes : Bytes) :
    (e.refreshed blobRoot bytes).root = blobRoot bytes := by
  rw [OutboxEntry.refreshed]
  split
  · rfl
  · rename_i h
    exact (not_not.mp h).symm

theorem loadedOn_refreshed (e : OutboxEntry) (bytes : Bytes) :
    (e.refreshed blobRoot bytes).loadedOn = e.loadedOn := by
  rw [OutboxEntry.refreshed]
  split <;> rfl

/-- What the accumulator is apart from the rows and the report. -/
theorem enter_spec (host : Host) (w : PlugWorld) (acc : Load) (e : OutboxEntry) :
    (acc.enter host w e).cargo = acc.cargo ∧ (acc.enter host w e).outboxDirty = acc.outboxDirty ∧
      ((acc.manifest.any e.aboard = false ∧
          (acc.enter host w e).manifest = acc.manifest ++ [e.listed host w] ∧
          (acc.enter host w e).manifestDirty = true) ∨
        (acc.manifest.any e.aboard = true ∧ (acc.enter host w e).manifest = acc.manifest ∧
          (acc.enter host w e).manifestDirty = acc.manifestDirty)) := by
  rw [Load.enter]
  split
  · rename_i h
    exact ⟨rfl, rfl, Or.inr ⟨h, rfl, rfl⟩⟩
  · rename_i h
    exact ⟨rfl, rfl, Or.inl ⟨Bool.eq_false_iff.mpr h, rfl, rfl⟩⟩

theorem finish_spec (host : Host) (stickId : String) (w : PlugWorld) (acc : Load)
    (e : OutboxEntry) :
    (acc.finish host stickId w e false).outbox =
        acc.outbox ++ [{ e with loadedOn := some stickId }] ∧
      (acc.finish host stickId w e false).outboxDirty =
        (acc.outboxDirty || e.loadedOn ≠ some stickId) ∧
      (acc.finish host stickId w e false).cargo = acc.cargo ∧
      (acc.finish host stickId w e false).manifest = acc.manifest ∧
      (acc.finish host stickId w e false).manifestDirty = acc.manifestDirty := by
  rw [Load.finish]
  split
  · rename_i h
    refine ⟨?_, by simp [h], rfl, rfl, rfl⟩
    rw [← h]
  · rename_i h
    exact ⟨rfl, by simp [h], rfl, rfl, rfl⟩

theorem noteChange_spec (blobRoot : Bytes → String) (acc : Load) (e : OutboxEntry) (bytes : Bytes) :
    (acc.noteChange blobRoot e bytes).cargo = acc.cargo ∧
      (acc.noteChange blobRoot e bytes).outboxDirty = acc.outboxDirty ∧
      (acc.noteChange blobRoot e bytes).manifest = acc.manifest ∧
      (acc.noteChange blobRoot e bytes).manifestDirty = acc.manifestDirty := by
  rw [Load.noteChange]
  split <;> exact ⟨rfl, rfl, rfl, rfl⟩

theorem current_of_read {e : OutboxEntry} {bytes : Bytes}
    (h : (files e.path).read = some bytes) :
    e.current blobRoot files = e.refreshed blobRoot bytes := by
  rw [OutboxEntry.current, h]
  rfl

theorem key_current (e : OutboxEntry) : (e.current blobRoot files).key = e.key := by
  rw [OutboxEntry.current]
  cases (files e.path).read with
  | none => rfl
  | some bytes => exact key_refreshed blobRoot e bytes

theorem shipmentId_current (e : OutboxEntry) :
    (e.current blobRoot files).shipmentId = e.shipmentId :=
  congrArg (fun k => k.2.2) (key_current e)

theorem dest_current (e : OutboxEntry) : (e.current blobRoot files).dest = e.dest :=
  congrArg (fun k => k.2.1) (key_current e)

/-- A row that is not loaded is left as it is. -/
theorem loaded_of_not_loads {e : OutboxEntry} (h : e.loads host files = false) (acc : Load)
    (report : PlugReport) :
    Loaded blobRoot host stickId w files e acc
      { acc with outbox := acc.outbox ++ [e], report := report } where
  outbox := by rw [OutboxEntry.after, h]; rfl
  dirty := by rw [OutboxEntry.isNew, h, Bool.false_and, Bool.or_false]
  manifest := Or.inr ⟨fun hl => absurd (h.symm.trans hl) (by simp), rfl, rfl⟩
  cargo := fun _ => Or.inl rfl
  held := fun _ _ hr => hr
  has := fun hl => absurd (h.symm.trans hl) (by simp)

/-- A row whose cargo is aboard is entered and finished. -/
theorem loaded_of_cargo {e : OutboxEntry} {bytes : Bytes} (h : e.shipmentId ≠ "")
    (hskip : e.skipped host = false) (hread : (files e.path).read = some bytes) {acc noted : Load}
    (houtbox : noted.outbox = acc.outbox) (hdirty : noted.outboxDirty = acc.outboxDirty)
    (hmanifest : noted.manifest = acc.manifest)
    (hmdirty : noted.manifestDirty = acc.manifestDirty)
    (hcargo : ∀ root, noted.cargo root = acc.cargo root ∨ ∃ bytes, noted.cargo root = some bytes ∧
      blobRoot bytes = root)
    (hheld : ∀ root bytes, acc.cargo root = some bytes → noted.cargo root = some bytes)
    (hhas : (noted.cargo (e.current blobRoot files).root).isSome = true) :
    Loaded blobRoot host stickId w files e acc
      ((noted.enter host w (e.current blobRoot files).named).finish host stickId w
        (e.current blobRoot files).named ((e.current blobRoot files).shipmentId = "")) := by
  have hloads : e.loads host files = true := by
    rw [OutboxEntry.loads, hskip, hread]
    rfl
  have hship : (e.current blobRoot files).shipmentId ≠ "" := by
    rw [shipmentId_current]
    exact h
  have hloaded : (e.current blobRoot files).loadedOn = e.loadedOn := by
    rw [current_of_read hread, loadedOn_refreshed]
  rw [named_of_ne hship, decide_eq_false hship]
  obtain ⟨hcargo', hdirty', hlist⟩ := enter_spec host w noted
    (e.current blobRoot files)
  obtain ⟨hout, hd, hc, hm, hmd⟩ := finish_spec host stickId w
    (noted.enter host w (e.current blobRoot files)) (e.current blobRoot files)
  rw [hmanifest, hmdirty] at hlist
  constructor
  · rw [hout, outbox_enter, houtbox, OutboxEntry.after, if_pos hloads]
  · rw [hd, hdirty', hdirty, hloaded, OutboxEntry.isNew, hloads, Bool.true_and]
  · rw [hm, hmd]
    rcases hlist with ⟨hnone, hentries, htrue⟩ | ⟨hsome, hentries, hsame⟩
    · exact Or.inl ⟨hloads, hnone, hentries, htrue⟩
    · exact Or.inr ⟨fun _ => hsome, hentries, hsame⟩
  · rw [hc, hcargo']
    exact hcargo
  · rw [hc, hcargo']
    exact hheld
  · rw [hc, hcargo']
    exact fun _ => hhas

/-- **One row**, with every write made. -/
theorem loaded_loadOne (blobRoot : Bytes → String) (host : Host) (stickId : String)
    (files : String → Source) (hcalm : ∀ f, w.writes f = .made) (acc : Load) {e : OutboxEntry}
    (h : e.shipmentId ≠ "") :
    Loaded blobRoot host stickId w files e acc
      (loadOne blobRoot host stickId w files acc e) := by
  rw [loadOne]
  split
  · rename_i hskip
    exact loaded_of_not_loads (by rw [OutboxEntry.loads, hskip]; rfl) acc acc.report
  · rename_i hskip
    rw [Bool.not_eq_true] at hskip
    split
    · rename_i hread
      exact loaded_of_not_loads (by rw [OutboxEntry.loads, hread]; simp) acc _
    · rename_i bytes hread
      obtain ⟨hcargo, hdirty, hmanifest, hmdirty⟩ :=
        noteChange_spec blobRoot acc e bytes
      dsimp only
      rw [← current_of_read hread, hcargo]
      split
      · rename_i hhas
        exact loaded_of_cargo h hskip hread (outbox_noteChange acc e bytes) hdirty hmanifest hmdirty
          (fun _ => Or.inl (congrFun hcargo _)) (fun _ _ hr => by rw [hcargo]; exact hr)
          (by rw [hcargo]; exact hhas)
      · rename_i hnone
        have hroot : (e.current blobRoot files).root = blobRoot bytes := by
          rw [current_of_read hread, root_refreshed]
        rw [hcalm]
        refine loaded_of_cargo h hskip hread (outbox_noteChange acc e bytes)
          hdirty hmanifest hmdirty
          (fun root => ?_) (fun root bytes' hr => ?_) ?_
        · rcases eq_or_ne root (e.current blobRoot files).root with rfl | hne
          · exact Or.inr ⟨bytes, Function.update_self _ _ _, hroot.symm⟩
          · exact Or.inl (Function.update_of_ne hne _ _)
        · rcases eq_or_ne root (e.current blobRoot files).root with rfl | hne
          · rw [hr] at hnone
            exact absurd rfl hnone
          · exact (Function.update_of_ne hne _ _).trans hr
        · dsimp only
          rw [Function.update_self]
          rfl

/-! ### The rows, with every write made -/

/-- What loading the rows comes to. -/
structure LoadedAll (blobRoot : Bytes → String) (host : Host) (stickId : String) (w : PlugWorld)
    (files : String → Source) (o : List OutboxEntry) (acc acc' : Load) : Prop where
  outbox : acc'.outbox = acc.outbox ++ o.map fun e => e.after blobRoot host stickId files
  dirty : acc'.outboxDirty = (acc.outboxDirty || o.any fun e => e.isNew host stickId files)
  kept : ∀ m ∈ acc.manifest, m ∈ acc'.manifest
  /-- What is new in the manifest is a row's, for which nothing passed. -/
  fresh : ∀ m ∈ acc'.manifest, m ∈ acc.manifest ∨ ∃ e ∈ o, e.loads host files = true ∧
    acc.manifest.any (e.current blobRoot files).aboard = false ∧
      m = (e.current blobRoot files).listed host w
  listed : ∀ e ∈ o, e.loads host files = true →
    acc.manifest.any (e.current blobRoot files).aboard = false →
      (e.current blobRoot files).listed host w ∈ acc'.manifest
  mono : acc.manifestDirty = true → acc'.manifestDirty = true
  clean : acc'.manifestDirty = false → acc'.manifest = acc.manifest
  cargo : ∀ root, acc'.cargo root = acc.cargo root ∨ ∃ bytes, acc'.cargo root = some bytes ∧
    blobRoot bytes = root
  held : ∀ root bytes, acc.cargo root = some bytes → acc'.cargo root = some bytes
  has : ∀ e ∈ o, e.loads host files = true →
    (acc'.cargo (e.current blobRoot files).root).isSome = true

/-- What one row lists does not pass for another. -/
theorem not_aboard_listed {e x : OutboxEntry} (he : e.shipmentId ≠ "") (hx : x.shipmentId ≠ "")
    (hne : e.shipmentId ≠ x.shipmentId) :
    (x.current blobRoot files).aboard ((e.current blobRoot files).listed host w) = false := by
  rw [OutboxEntry.aboard, OutboxEntry.listed]
  simp only [shipmentId_current]
  rw [if_pos (by simp [he, hx])]
  exact decide_eq_false hne

theorem loadedAll_foldl (hcalm : ∀ f, w.writes f = .made) {o : List OutboxEntry}
    (hne : ∀ e ∈ o, e.shipmentId ≠ "") (hdistinct : (o.map OutboxEntry.shipmentId).Nodup)
    (acc : Load) : LoadedAll blobRoot host stickId w files o acc
      (o.foldl (loadOne blobRoot host stickId w files) acc) := by
  induction o generalizing acc with
  | nil =>
    exact ⟨(List.append_nil _).symm, (Bool.or_false _).symm, fun _ h => h, fun _ h => Or.inl h,
      fun _ h => (nomatch h), id, fun _ => rfl, fun _ => Or.inl rfl, fun _ _ h => h,
      fun _ h => (nomatch h)⟩
  | cons e o ih =>
    have hone := loaded_loadOne blobRoot host stickId files hcalm acc (hne e List.mem_cons_self)
    rw [List.map_cons, List.nodup_cons] at hdistinct
    have hall := ih (fun x hx => hne x (List.mem_cons_of_mem _ hx)) hdistinct.2
      (loadOne blobRoot host stickId w files acc e)
    rw [List.foldl_cons]
    generalize loadOne blobRoot host stickId w files acc e = mid at hone hall ⊢
    generalize o.foldl (loadOne blobRoot host stickId w files) mid = acc' at hall ⊢
    -- Whether something passes for a later row does not depend on this one.
    have hany (x : OutboxEntry) (hx : x ∈ o) :
        mid.manifest.any (x.current blobRoot files).aboard =
          acc.manifest.any (x.current blobRoot files).aboard := by
      rcases hone.manifest with ⟨-, -, hm, -⟩ | ⟨-, hm, -⟩
      · have hship : e.shipmentId ≠ x.shipmentId := fun heq =>
          hdistinct.1 (heq ▸ List.mem_map_of_mem hx)
        rw [hm, List.any_append, List.any_cons, List.any_nil, not_aboard_listed
          (hne e List.mem_cons_self) (hne x (List.mem_cons_of_mem _ hx)) hship]
        simp
      · rw [hm]
    have hmid (m : ManifestEntry) (hm : m ∈ acc.manifest) : m ∈ mid.manifest := by
      rcases hone.manifest with ⟨-, -, hm', -⟩ | ⟨-, hm', -⟩
      · rw [hm']
        exact List.mem_append_left _ hm
      · rwa [hm']
    refine {
      outbox := ?_
      dirty := ?_
      kept := fun m hm => hall.kept m (hmid m hm)
      fresh := ?_
      listed := ?_
      mono := ?_
      clean := ?_
      cargo := ?_
      held := fun root bytes hr => hall.held root bytes (hone.held root bytes hr)
      has := ?_ }
    · rw [hall.outbox, hone.outbox, List.map_cons, List.append_assoc]
      rfl
    · rw [hall.dirty, hone.dirty, List.any_cons, Bool.or_assoc]
    · intro m hm
      rcases hall.fresh m hm with hm | ⟨x, hx, hloads, hnone, rfl⟩
      · rcases hone.manifest with ⟨hloads, hnone, hm', -⟩ | ⟨-, hm', -⟩
        · rw [hm'] at hm
          rcases List.mem_append.mp hm with hm | hm
          · exact Or.inl hm
          · exact Or.inr ⟨e, List.mem_cons_self, hloads, hnone, List.mem_singleton.mp hm⟩
        · rw [hm'] at hm
          exact Or.inl hm
      · rw [hany x hx] at hnone
        exact Or.inr ⟨x, List.mem_cons_of_mem _ hx, hloads, hnone, rfl⟩
    · intro x hx hloads hnone
      rcases List.mem_cons.mp hx with rfl | hx
      · rcases hone.manifest with ⟨-, -, hm', -⟩ | ⟨hpass, -, -⟩
        · refine hall.kept _ ?_
          rw [hm']
          exact List.mem_append_right _ List.mem_cons_self
        · rw [hpass hloads] at hnone
          cases hnone
      · exact hall.listed x hx hloads ((hany x hx).trans hnone)
    · intro hdirty
      rcases hone.manifest with ⟨-, -, -, hdirty'⟩ | ⟨-, -, hsame⟩
      · exact hall.mono hdirty'
      · exact hall.mono (hsame.trans hdirty)
    · intro hclean
      rcases hone.manifest with ⟨-, -, -, hdirty⟩ | ⟨-, hm', -⟩
      · rw [hall.mono hdirty] at hclean
        cases hclean
      · rw [hall.clean hclean, hm']
    · intro root
      rcases hall.cargo root with hsame | hnew
      · rw [hsame]
        exact hone.cargo root
      · exact Or.inr hnew
    · intro x hx hloads
      rcases List.mem_cons.mp hx with rfl | hx
      · obtain ⟨bytes, hbytes⟩ := Option.isSome_iff_exists.mp (hone.has hloads)
        rw [hall.held _ _ hbytes]
        rfl
      · exact hall.has x hx hloads

/-! ### A stick of the colony -/

/-- What the manifest aboard lists. -/
def Stick.entries (s : Stick) : List ManifestEntry := s.manifest.elim [] Sealed.entries

/-- The receipts aboard. -/
def Stick.receiptList (s : Stick) : List Receipt := s.receipts.elim [] Sealed.entries

/-- The id of a stick at a plug that gives it one if it has none. -/
def Stick.idAt (s : Stick) (w : PlugWorld) : String :=
  match s.marker with
  | .ok (some id) => id
  | _ => w.minted

/-- A stick that only the colony has written to. -/
structure Stick.Whole (blobRoot : Bytes → String) (psk : Bytes32) (s : Stick) : Prop where
  marker : ∃ id, s.marker = .ok id
  manifest : ∀ l, s.manifest = some l → l.psk = psk ∧ l.domain = "manifest" ∧
    s.marker = .ok (some l.stickId)
  receipts : ∀ l, s.receipts = some l → l.psk = psk ∧ l.domain = "receipts" ∧
    s.marker = .ok (some l.stickId)
  cargo : ∀ root bytes, s.cargo root = some bytes → blobRoot bytes = root
  aboard : ∀ m ∈ s.entries, (s.cargo m.root).isSome = true ∧ m.shipmentId ≠ ""

/-- The stick with the id it has after a plug. -/
def Stick.identified (s : Stick) (w : PlugWorld) :
    Stick := { s with marker := .ok (some (s.idAt w)) }

variable {psk : Bytes32} {n : Node} {s : Stick}

theorem Stick.Whole.ensureStickId (h : s.Whole blobRoot psk) (hcalm : ∀ f, w.writes f = .made) :
    ensureStickId s w = .ok (s.identified w, s.idAt w) := by
  obtain ⟨id, hid⟩ := h.marker
  rw [Courier.ensureStickId, Stick.identified, Stick.idAt, hid]
  cases id with
  | none =>
    dsimp only
    rw [hcalm]
  | some id =>
    dsimp only
    rw [← hid]

theorem Stick.Whole.identified (h : s.Whole blobRoot psk) (w : PlugWorld) :
    (s.identified w).Whole blobRoot psk where
  marker := ⟨_, rfl⟩
  manifest := by
    intro l hl
    obtain ⟨hpsk, hdomain, hmarker⟩ := h.manifest l hl
    exact ⟨hpsk, hdomain, by rw [Stick.identified, Stick.idAt, hmarker]⟩
  receipts := by
    intro l hl
    obtain ⟨hpsk, hdomain, hmarker⟩ := h.receipts l hl
    exact ⟨hpsk, hdomain, by rw [Stick.identified, Stick.idAt, hmarker]⟩
  cargo := h.cargo
  aboard := h.aboard

/-- A list of the colony's own opens. -/
theorem readSealedList_eq {α : Type*} {file : Option (Sealed α)}
    {marker : Except String (Option String)}
    {id domain : String} (hmarker : marker = .ok (some id))
    (h : ∀ l, file = some l → l.psk = psk ∧ l.domain = domain ∧ marker = .ok (some l.stickId)) :
    readSealedList file psk id domain = .ok (file.elim [] Sealed.entries) := by
  cases file with
  | none => rfl
  | some l =>
    obtain ⟨hpsk, hdomain, hid⟩ := h l rfl
    have heq : some l.stickId = some id := Except.ok.inj (hid.symm.trans hmarker)
    rw [readSealedList]
    exact if_pos ⟨hpsk, Option.some.inj heq, hdomain⟩

/-! ### The plug -/

variable (blobRoot host w n s)

/-- The cargo that the plug takes in. -/
def takenIn : Ingest :=
  plugTaken blobRoot host (s.idAt w) w n s s.entries s.receiptList
    { PlugReport.empty with stickId := some (s.idAt w) }

/-- The rows that are left for the plug to load: the receipts aboard are read. -/
def rowsLeft : List OutboxEntry :=
  outboxHome (s.idAt w) w (takenIn blobRoot host w n s).receipts n.outbox

/-- The outbox aboard. -/
def loadLeft : Load :=
  plugLoad blobRoot host (s.idAt w) w n s s.entries (takenIn blobRoot host w n s)

/-- Some row is new to the stick, so that the outbox is saved. -/
def savesRows : Bool :=
  (rowsLeft blobRoot host w n s).any fun e =>
    e.isNew host (s.idAt w) (takenIn blobRoot host w n s).files

/-- The root that the outbox has for a row after the plug. -/
def savedRoot (e : OutboxEntry) : String :=
  if savesRows blobRoot host w n s then
    (e.current blobRoot (takenIn blobRoot host w n s).files).root
  else e.root

/-- Every row that a plug loads is aboard: the manifest lists it as this node's, to its destination,
under its shipment id and with the root that the outbox has, and the bytes are there. -/
def Complete : Prop :=
  ∀ e ∈ n.outbox, e.loads host n.files = true →
    ∃ m ∈ s.entries, m.origin = host.nodeId ∧ m.dest = e.dest ∧ m.shipmentId = e.shipmentId ∧
      m.root = e.root ∧ ∃ bytes, s.cargo m.root = some bytes ∧ blobRoot bytes = m.root

/-- What is aboard under the shipment id of a row that is to be loaded is the row, with the root
that the outbox will have; or nothing is, and the root that it will have is that of the source. -/
def Clear : Prop :=
  ∀ e ∈ rowsLeft blobRoot host w n s, e.loads host (takenIn blobRoot host w n s).files = true →
    (∃ m ∈ s.entries, m.origin = host.nodeId ∧ m.dest = e.dest ∧ m.shipmentId = e.shipmentId ∧
      m.root = savedRoot blobRoot host w n s e) ∨
    ((∀ m ∈ s.entries, m.shipmentId ≠ e.shipmentId) ∧
      (e.current blobRoot (takenIn blobRoot host w n s).files).root =
        savedRoot blobRoot host w n s e)

variable {blobRoot host w n s}

/-- A plug of a stick of the colony opens both lists. -/
theorem processPlug_of_whole (h : s.Whole blobRoot psk) (hcalm : ∀ f, w.writes f = .made) :
    processPlug blobRoot host w n s (some psk) =
      plugOpened blobRoot host (s.idAt w) w n (s.identified w) psk s.entries s.receiptList
        { PlugReport.empty with stickId := some (s.idAt w) } := by
  have hid := h.identified w
  rw [processPlug, h.ensureStickId hcalm]
  dsimp only
  rw [readSealedList_eq (rfl : (s.identified w).marker = .ok (some (s.idAt w))) hid.manifest,
    readSealedList_eq (rfl : (s.identified w).marker = .ok (some (s.idAt w))) hid.receipts]
  rfl

theorem stamped_rowsLeft (blobRoot : Bytes → String) (host : Host) (w : PlugWorld) (s : Stick)
    (h : Stamped n.outbox) : Stamped (rowsLeft blobRoot host w n s) :=
  h.congr (keys_outboxHome _ _ _ _)

theorem Stamped.distinct {o : List OutboxEntry} (h : Stamped o) :
    (o.map OutboxEntry.shipmentId).Nodup := by
  refine (List.nodup_map_iff_inj_on ?_).mpr fun x hx y hy hxy => ?_
  · exact ((List.pairwise_map.mp h.ids).imp fun hlt heq => absurd (heq ▸ hlt) (Nat.lt_irrefl _))
  · rw [h.mem hx, h.mem hy] at hxy
    exact h.eq_of_id hx hy (shipmentIdFor_injective hxy).2

theorem loadedAll_loadLeft (blobRoot : Bytes → String) (host : Host) (s : Stick)
    (h : Stamped n.outbox) (hcalm : ∀ f, w.writes f = .made) :
    ∃ report gossip, LoadedAll blobRoot host (s.idAt w) w (takenIn blobRoot host w n s).files
      (rowsLeft blobRoot host w n s) ⟨[], false, s.cargo, s.entries, false, report, gossip⟩
      (loadLeft blobRoot host w n s) := by
  have hrows := stamped_rowsLeft blobRoot host w s h
  exact ⟨_, _, loadedAll_foldl hcalm (fun e he => hrows.ne_empty he) hrows.distinct _⟩

/-- What a plug leaves at the node and on the stick. -/
theorem plugged (host : Host) (hn : Stamped n.outbox) (h : s.Whole blobRoot psk)
    (hcalm : ∀ f, w.writes f = .made) :
    (processPlug blobRoot host w n s (some psk)).1.files = (takenIn blobRoot host w n s).files ∧
      (processPlug blobRoot host w n s (some psk)).1.outbox =
        (if savesRows blobRoot host w n s then (rowsLeft blobRoot host w n s).map fun e =>
          e.after blobRoot host (s.idAt w) (takenIn blobRoot host w n s).files
        else rowsLeft blobRoot host w n s) ∧
      (processPlug blobRoot host w n s (some psk)).2.1.cargo =
      (loadLeft blobRoot host w n s).cargo ∧
      (processPlug blobRoot host w n s (some psk)).2.1.entries =
        (loadLeft blobRoot host w n s).manifest := by
  obtain ⟨report, gossip, hload⟩ := loadedAll_loadLeft blobRoot host s hn hcalm
  rw [processPlug_of_whole h hcalm]
  refine ⟨rfl, ?_, rfl, ?_⟩
  · change (if (loadLeft blobRoot host w n s).outboxDirty = true then
      (w.writes .loadedOutbox).of (rowsLeft blobRoot host w n s)
        (loadLeft blobRoot host w n s).outbox else rowsLeft blobRoot host w n s) = _
    rw [hload.dirty, hload.outbox, hcalm, Bool.false_or, List.nil_append]
    rfl
  · change (if (loadLeft blobRoot host w n s).manifestDirty = true then
      (w.writes .manifest).of s.manifest
        (some ⟨psk, s.idAt w, "manifest", (loadLeft blobRoot host w n s).manifest⟩)
      else s.manifest).elim [] Sealed.entries = _
    rw [hcalm]
    cases hdirty : (loadLeft blobRoot host w n s).manifestDirty with
    | true => rfl
    | false =>
      rw [hload.clean hdirty]
      rfl

/-- A list that a plug leaves is the one that was there, or one sealed for this stick. -/
theorem sealed_write {α : Type*} {dirty : Bool} {file : Option (Sealed α)} {write : Write}
    {entries : List α} {id domain : String} {l : Sealed α}
    (hold : ∀ l, file = some l → l.psk = psk ∧ l.domain = domain ∧ l.stickId = id)
    (hl : (if dirty then write.of file (some ⟨psk, id, domain, entries⟩) else file) = some l) :
    l.psk = psk ∧ l.domain = domain ∧ l.stickId = id := by
  split at hl
  · cases write with
    | made =>
      obtain rfl := Option.some.inj hl
      exact ⟨rfl, rfl, rfl⟩
    | failed => exact hold l hl
  · exact hold l hl

theorem idAt_of_marker (w : PlugWorld) {id : String}
    (hid : s.marker = .ok (some id)) : s.idAt w = id := by
  rw [Stick.idAt, hid]

/-- A stick of the colony is one after a plug. -/
theorem Stick.Whole.plug (host : Host) (h : s.Whole blobRoot psk) (hn : Stamped n.outbox)
    (hcalm : ∀ f, w.writes f = .made) :
    (processPlug blobRoot host w n s (some psk)).2.1.Whole blobRoot psk := by
  obtain ⟨report, gossip, hload⟩ := loadedAll_loadLeft blobRoot host s hn hcalm
  obtain ⟨-, -, hcargo, hentries⟩ := plugged host hn h hcalm
  have hrows := stamped_rowsLeft blobRoot host w s hn
  refine ⟨⟨some (s.idAt w), ?_⟩, fun l hl => ?_, fun l hl => ?_, fun root bytes hr => ?_,
    fun m hm => ?_⟩
  · rw [processPlug_of_whole h hcalm]
    rfl
  · rw [processPlug_of_whole h hcalm] at hl ⊢
    obtain ⟨hpsk, hdomain, hid⟩ := sealed_write (fun l hl => by
      obtain ⟨hpsk, hdomain, hid⟩ := h.manifest l hl
      exact ⟨hpsk, hdomain, (idAt_of_marker w hid).symm⟩) hl
    exact ⟨hpsk, hdomain, by rw [hid]; rfl⟩
  · rw [processPlug_of_whole h hcalm] at hl ⊢
    obtain ⟨hpsk, hdomain, hid⟩ := sealed_write (fun l hl => by
      obtain ⟨hpsk, hdomain, hid⟩ := h.receipts l hl
      exact ⟨hpsk, hdomain, (idAt_of_marker w hid).symm⟩) hl
    exact ⟨hpsk, hdomain, by rw [hid]; rfl⟩
  · rw [hcargo] at hr
    rcases hload.cargo root with hsame | ⟨bytes', hnew, hroot⟩
    · exact h.cargo root bytes (hsame.symm.trans hr)
    · obtain rfl := Option.some.inj (hnew.symm.trans hr)
      exact hroot
  · rw [hentries] at hm
    rw [hcargo]
    rcases hload.fresh m hm with hm | ⟨e, he, hloads, -, rfl⟩
    · obtain ⟨haboard, hship⟩ := h.aboard m hm
      obtain ⟨bytes, hbytes⟩ := Option.isSome_iff_exists.mp haboard
      rw [hload.held _ _ hbytes]
      exact ⟨rfl, hship⟩
    · refine ⟨hload.has e he hloads, ?_⟩
      rw [OutboxEntry.listed, shipmentId_current]
      exact hrows.ne_empty he

/-- Nothing aboard passes for a row exactly when nothing carries its shipment id. -/
theorem any_aboard_eq_false (h : s.Whole blobRoot psk) {e : OutboxEntry} (he : e.shipmentId ≠ "") :
    s.entries.any (e.current blobRoot files).aboard = false ↔
      ∀ m ∈ s.entries, m.shipmentId ≠ e.shipmentId := by
  rw [List.any_eq_false]
  refine forall₂_congr fun m hm => ?_
  rw [OutboxEntry.aboard, shipmentId_current, if_pos (by simp [he, (h.aboard m hm).2]),
    decide_eq_true_eq]

theorem loads_after (e : OutboxEntry) :
    (e.after blobRoot host stickId files).loads host files = e.loads host files := by
  rw [OutboxEntry.after]
  split
  · rename_i h
    rw [h]
    have hsame : (e.current blobRoot files).path = e.path ∧
        (e.current blobRoot files).receiptedAt = e.receiptedAt ∧
        (e.current blobRoot files).dest = e.dest := by
      rw [OutboxEntry.current]
      cases (files e.path).read with
      | none => exact ⟨rfl, rfl, rfl⟩
      | some bytes =>
        change (e.refreshed blobRoot bytes).path = _ ∧ _
        rw [Option.elim_some, OutboxEntry.refreshed]
        split <;> exact ⟨rfl, rfl, rfl⟩
    obtain ⟨hpath, hreceipted, hdest⟩ := hsame
    rw [← h, OutboxEntry.loads, OutboxEntry.loads, OutboxEntry.skipped, OutboxEntry.skipped]
    simp only [hpath, hreceipted, hdest]
  · rfl

/-- The row as the outbox has it after the plug: its root is the saved one. -/
theorem mem_outbox_plugged (hn : Stamped n.outbox) (h : s.Whole blobRoot psk)
    (hcalm : ∀ f, w.writes f = .made) {P : OutboxEntry → Prop}
    (hP : ∀ e e', e'.dest = e.dest → e'.shipmentId = e.shipmentId → e'.root = e.root →
      (P e' ↔ P e)) :
    (∀ e ∈ (processPlug blobRoot host w n s (some psk)).1.outbox,
        e.loads host (takenIn blobRoot host w n s).files = true → P e) ↔
      ∀ e ∈ rowsLeft blobRoot host w n s, e.loads host (takenIn blobRoot host w n s).files = true →
        P { e with root := savedRoot blobRoot host w n s e } := by
  obtain ⟨-, hout, -, -⟩ := plugged host hn h hcalm
  rw [hout]
  simp only [savedRoot]
  split
  · rw [List.forall_mem_map]
    refine forall₂_congr fun e _ => ?_
    rw [loads_after]
    refine imp_congr_right fun hloads => hP _ _ ?_ ?_ ?_
    · rw [OutboxEntry.after, if_pos hloads]
      exact dest_current e
    · rw [OutboxEntry.after, if_pos hloads]
      exact shipmentId_current e
    · rw [OutboxEntry.after, if_pos hloads]
  · exact Iff.rfl

/-- **One plug.** -/
theorem complete_processPlug_iff (hn : Stamped n.outbox) (h : s.Whole blobRoot psk)
    (hcalm : ∀ f, w.writes f = .made) :
    Complete blobRoot host (processPlug blobRoot host w n s (some psk)).1
        (processPlug blobRoot host w n s (some psk)).2.1 ↔ Clear blobRoot host w n s := by
  obtain ⟨report, gossip, hload⟩ := loadedAll_loadLeft blobRoot host s hn hcalm
  obtain ⟨hfiles, -, -, hentries⟩ := plugged host hn h hcalm
  have hrows := stamped_rowsLeft blobRoot host w s hn
  have hwhole := h.plug host hn hcalm
  have hbytes (m : ManifestEntry) (hm : m ∈ (loadLeft blobRoot host w n s).manifest) :
      ∃ bytes, (processPlug blobRoot host w n s (some psk)).2.1.cargo m.root = some bytes ∧
        blobRoot bytes = m.root := by
    obtain ⟨bytes, hsome⟩ := Option.isSome_iff_exists.mp (hwhole.aboard m (hentries ▸ hm)).1
    exact ⟨bytes, hsome, hwhole.cargo m.root bytes hsome⟩
  rw [Complete, hfiles, mem_outbox_plugged hn h hcalm]
  · refine forall₃_congr fun e he hloads => ?_
    have hship := hrows.ne_empty he
    rw [hentries]
    constructor
    · rintro ⟨m, hm, horigin, hdest, hid, hroot, -⟩
      rcases hload.fresh m hm with hm | ⟨x, hx, -, hnone, rfl⟩
      · exact Or.inl ⟨m, hm, horigin, hdest, hid, hroot⟩
      · refine Or.inr ?_
        have hxe : x.shipmentId = e.shipmentId := (shipmentId_current x).symm.trans hid
        obtain rfl : x = e := by
          rw [hrows.mem hx, hrows.mem he] at hxe
          exact hrows.eq_of_id hx he (shipmentIdFor_injective hxe).2
        exact ⟨(any_aboard_eq_false h hship).mp hnone, hroot⟩
    · rintro (⟨m, hm, horigin, hdest, hid, hroot⟩ | ⟨hnone, hroot⟩)
      · have hm := hload.kept m hm
        exact ⟨m, hm, horigin, hdest, hid, hroot, hbytes m hm⟩
      · have hm := hload.listed e he hloads ((any_aboard_eq_false h hship).mpr hnone)
        exact ⟨_, hm, rfl, dest_current e, shipmentId_current e, hroot, hbytes _ hm⟩
  · intro e e' hdest hid hroot
    simp only [hdest, hid, hroot]

/-! ### The colony -/

/-- Nodes, and sticks that go between them. -/
structure Colony where
  nodes : ℕ → Node
  sticks : ℕ → Stick

namespace Colony

/-- What happens in a colony: an operation at a node, or a stick of the colony is plugged in at one,
where every write is made. -/
inductive Input
  | node (i : ℕ) (input : Node.Input)
  | plug (i j : ℕ) (now : String) (epoch : ℕ) (minted : String)

variable (blobRoot : Bytes → String) (psk : Bytes32) (hosts : ℕ → Host)

/-- One operation. -/
def step (c : Colony) : Input → Colony × Node.Output
  | .node i input =>
    let r := (c.nodes i).step blobRoot (hosts i) input
    ({ c with nodes := Function.update c.nodes i r.1 }, r.2)
  | .plug i j now epoch minted =>
    let r := processPlug blobRoot (hosts i) (.calm now epoch minted) (c.nodes i) (c.sticks j)
      (some psk)
    (⟨Function.update c.nodes i r.1, Function.update c.sticks j r.2.1⟩, .plug r.2.1 r.2.2.1 r.2.2.2)

/-- Nodes on which nothing has been queued, and sticks that are empty, with or without an id. -/
def new (files : ℕ → String → Source) (ids : ℕ → Option String) : Colony where
  nodes i := Node.new (files i)
  sticks j := ⟨.ok (ids j), none, none, fun _ => none⟩

/-- After a plug, the rows that it loads are aboard. -/
def CompleteAfter (c : Colony) : Input → Prop
  | .node _ _ => True
  | .plug i j now epoch minted =>
    let c' := (c.step blobRoot psk hosts (.plug i j now epoch minted)).1
    Complete blobRoot (hosts i) (c'.nodes i) (c'.sticks j)

/-- Before a plug, the shipment ids of the rows that it loads are clear. -/
def ClearBefore (c : Colony) : Input → Prop
  | .node _ _ => True
  | .plug i j now epoch minted =>
    Clear blobRoot (hosts i) (.calm now epoch minted) (c.nodes i) (c.sticks j)

/-- The rows of every node are stamped, and nobody else has written to the sticks. -/
structure Sound (c : Colony) : Prop where
  nodes : ∀ i, Stamped (c.nodes i).outbox
  sticks : ∀ j, (c.sticks j).Whole blobRoot psk

variable {blobRoot psk hosts} {c : Colony}

theorem Sound.step (h : c.Sound blobRoot psk) (input : Input) :
    (c.step blobRoot psk hosts input).1.Sound blobRoot psk := by
  cases input with
  | node i input =>
    refine ⟨fun k => ?_, h.sticks⟩
    rw [Colony.step]
    rcases eq_or_ne k i with rfl | hne
    · simp only [Function.update_self]
      exact (Node.deed_step blobRoot (hosts k) (h.nodes k) input).stamped (h.nodes k)
    · simp only [Function.update_of_ne hne]
      exact h.nodes k
  | plug i j now epoch minted =>
    refine ⟨fun k => ?_, fun k => ?_⟩
    · rw [Colony.step]
      rcases eq_or_ne k i with rfl | hne
      · simp only [Function.update_self]
        exact (h.nodes k).congr (Node.keys_processPlug (h.nodes k) _ _)
      · simp only [Function.update_of_ne hne]
        exact h.nodes k
    · rw [Colony.step]
      rcases eq_or_ne k j with rfl | hne
      · simp only [Function.update_self]
        exact (h.sticks k).plug (hosts i) (h.nodes i) fun _ => rfl
      · simp only [Function.update_of_ne hne]
        exact h.sticks k

theorem sound_new (files : ℕ → String → Source) (ids : ℕ → Option String) :
    (new files ids).Sound blobRoot psk where
  nodes := fun _ => stamped_nil
  sticks := fun j => ⟨⟨ids j, rfl⟩, fun _ h => (nomatch h), fun _ h => (nomatch h),
    fun _ _ h => (nomatch h), fun _ h => (nomatch h)⟩

/-- **What a plug is to load is aboard after it** exactly when what is aboard under a shipment id is
the row's, at every plug of every run of a new colony. -/
theorem complete_iff_clear (blobRoot : Bytes → String) (psk : Bytes32) (hosts : ℕ → Host)
    (files : ℕ → String → Source) (ids : ℕ → Option String) (inputs : List Input) :
    Run.Always (step blobRoot psk hosts) (new files ids)
      (fun _ c input => c.CompleteAfter blobRoot psk hosts input ↔
      c.ClearBefore blobRoot hosts input)
      inputs := by
  refine Run.Always.of_invariant (I := fun _ c => c.Sound blobRoot psk) (sound_new files ids)
    (fun _ _ input h _ => h.step input) (fun _ c input h _ => ?_) (Run.Always.true inputs)
  cases input with
  | node i input => exact Iff.rfl
  | plug i j now epoch minted =>
    rw [CompleteAfter, ClearBefore,
      ← complete_processPlug_iff (h.nodes i) (h.sticks j) fun _ => rfl, Colony.step]
    simp only [Function.update_self]

/-- Two nodes queue their first artifact, both for a third, and the stick goes from one to the
other. -/
def sameId : List Input :=
  [.node 0 (.queue "/w/a" "tvpi" "a" "t0" .made), .node 1 (.queue "/w/b" "tvpi" "b" "t1" .made),
    .plug 0 0 "t2" 1 "s1", .plug 1 0 "t3" 1 "s2"]

/-- Two nodes with the same files. -/
def twoHosts (i : ℕ) : Host := ⟨if i = 0 then "apex1" else "apex2", "/w"⟩

/-- The second finds the shipment id of its row aboard, and lists nothing. -/
theorem not_complete_sameId :
    ¬ Run.Always (step (fun bytes => toString bytes.length) (Vector.replicate 32 7) twoHosts)
      (new (fun _ => Node.twoFiles) fun _ => none)
      (fun _ c input => c.CompleteAfter (fun bytes => toString bytes.length)
        (Vector.replicate 32 7) twoHosts input) sameId := by
  intro h
  have hlast := h [_, _, _] _ [] (show sameId = [_, _, _] ++ _ :: [] from rfl)
  change Complete _ (twoHosts 1) _ _ at hlast
  obtain ⟨e, he, hloads⟩ : ∃ e ∈ (Run.final (step (fun bytes => toString bytes.length)
      (Vector.replicate 32 7) twoHosts) (new (fun _ => Node.twoFiles) fun _ => none)
      sameId).nodes 1 |>.outbox, e.loads (twoHosts 1) Node.twoFiles = true := by decide +kernel
  obtain ⟨m, hm, horigin, -⟩ := hlast e he hloads
  have hnone : ∀ m ∈ ((Run.final (step (fun bytes => toString bytes.length)
      (Vector.replicate 32 7) twoHosts) (new (fun _ => Node.twoFiles) fun _ => none)
      sameId).sticks 0).entries, m.origin ≠ (twoHosts 1).nodeId := by decide +kernel
  exact hnone m hm horigin

end Colony

end ApexOS.Courier
