import ApexOS.Courier.Cargo
import ApexOS.Deploy.Verdict
import ApexOS.Lib.TomlText

/-!
# The marker of a stick

`parse_marker`, `upgraded_marker` and `ensure_stick_id` of `plugins/src/courier.rs`. A marker
without an id is upgraded as lines: a line that looks like the version is replaced, and the id is
appended. Where the text is more than lines, the id goes to the last table, or the text is no
document any more.

## Main definitions

* `Reader`: what is known of the crate that reads documents
* `parseMarker`, `upgradedMarker`, `ensureStickId`: the program
* `Stable`: a stick keeps the id that it was given
* `VersionKept`: what looks like the version is it
* `Open`: the end of the text is in the root, and what an upgrade sets is free

## Main results

* `document_upgradedMarker`: the statements of the upgraded text
* `fromStr_upgradedMarker`: the document that they make
* `stable_iff`: when a stick keeps its id
-/

namespace ApexOS.Courier.StickMarker

open TomlText
open ApexOS.Deploy.Verdict (lines trim)
open ApexOS.Agentd (isWhitespace)

/-! ### What is used of the `toml` crate -/

/-- What a basic string and a comment hold as it is. -/
def IsPlain (c : Char) : Prop :=
  c ≠ '"' ∧ c ≠ '\\' ∧ (32 ≤ c.toNat ∨ c = '\t') ∧ c.toNat ≠ 127

instance (c : Char) : Decidable (IsPlain c) := inferInstanceAs (Decidable (_ ∧ _))

/-- What a bare key is made of. -/
def IsBare (c : Char) : Prop := c.isAlphanum ∨ c = '_' ∨ c = '-'

instance (c : Char) : Decidable (IsBare c) := inferInstanceAs (Decidable (_ ∨ _))

/-- Lines, each ended. -/
def joined (lines : List Text) : Text := lines.flatMap (· ++ ['\n'])

@[simp] theorem joined_nil : joined [] = [] := rfl

@[simp] theorem joined_cons (line : Text) (lines : List Text) :
    joined (line :: lines) = line ++ ['\n'] ++ joined lines := rfl

@[simp] theorem joined_append (lines more : List Text) :
    joined (lines ++ more) = joined lines ++ joined more := List.flatMap_append ..

/-- The mark that a document may begin with. -/
def bom : Char := Char.ofNat 0xFEFF

/-- **What is known of a reader of documents.** Whole statements end with their lines: what follows
them is read as if they were not there. Lines end in either way. -/
structure Reader where
  /-- the statements of a document -/
  document : Text → Option (List Stmt)
  /-- the statements of what follows whole lines -/
  read : Text → Option (List Stmt)
  document_nil : document [] = some []
  document_append {a b : Text} {xs : List Stmt} (ha : document a = some xs)
    (hend : a.getLast? = some '\n' ∨ a = [] ∧ b.head? ≠ some bom) :
    document (a ++ b) = (read b).map (xs ++ ·)
  read_append {a b : Text} {xs : List Stmt} (ha : read a = some xs)
    (hend : a.getLast? = some '\n') : read (a ++ b) = (read b).map (xs ++ ·)
  document_lines {text : Text} {xs : List Stmt} (h : document text = some xs) :
    document (joined (lines text)) = some xs
  read_comment {t : Text} (ht : ∀ c ∈ t, IsPlain c) : read ('#' :: (t ++ ['\n'])) = some []
  read_string {key v : Text} (hkey : key ≠ [] ∧ ∀ c ∈ key, IsBare c) (n : ℕ)
    (hv : ∀ c ∈ v, IsPlain c) :
    read (key ++ List.replicate n ' ' ++ "= \"".toList ++ v ++ "\"\n".toList) =
      some [.entry [] (String.ofList key) (.string v)]
  read_version : read "version   = 2\n".toList = some [.entry [] "version" (.integer 2)]

/-! ### The program -/

/-- `Marker`. -/
structure Marker where
  version : ℤ
  name : Text
  stickId : Option Text
  deriving DecidableEq, Repr

def asInteger : Value → Option ℤ
  | .integer n => some n
  | _ => none

def asStr : Value → Option Text
  | .string s => some s
  | _ => none

/-- The fields that are taken from a document. -/
def markerOf (root : Entries) : Marker where
  version := ((valueOf root "version").bind asInteger).getD 1
  name := ((valueOf root "name").bind asStr).getD []
  stickId := (((valueOf root "stick_id").bind asStr).map trim).filter fun id => id ≠ []

/-- `toml::from_str`, with the table that entries at the end go to. -/
def fromStr (r : Reader) (text : Text) : Option State := (r.document text).bind build

/-- `parse_marker`. -/
def parseMarker (r : Reader) (text : Text) : Option Marker :=
  (fromStr r text).map fun s => markerOf s.root

/-- What is minted when an id is lacking: random bytes, and the time as text. -/
structure Mint where
  bytes : Bytes
  length : bytes.length = 8
  now : Text
  plain : ∀ c ∈ now, IsPlain c

/-- `mint_stick_id`. -/
def Mint.stickId (m : Mint) : Text := m.bytes.flatMap hexByte

/-- A line that looks like the version. -/
def isVersionLine (line : Text) : Bool :=
  "version".toList.isPrefixOf (line.dropWhile isWhitespace) && line.contains '='

def versionLine : Text := "version   = 2".toList

/-- The comment that an upgrade appends. -/
def notice (node : Text) : Text :=
  " v2 courier identity — minted on plug by ".toList ++ node ++
    " (docs/apexnet.md §7); never edit.".toList

/-- What an upgrade appends. -/
def appended (stickId node now : Text) : Text :=
  '#' :: (notice node ++ ['\n']) ++
    (("stick_id  = \"".toList ++ stickId ++ "\"\n".toList) ++
    (("minted_by = \"".toList ++ node ++ "\"\n".toList) ++
    ("minted_at = \"".toList ++ now ++ "\"\n".toList)))

/-- `upgraded_marker`. -/
def upgradedMarker (existing stickId node now : Text) : Text :=
  joined ((lines existing).map fun line => if isVersionLine line then versionLine else line) ++
    appended stickId node now

/-- What becomes of a write: it is made, or something is left of it. -/
inductive Written
  | made
  | failed (left : Option Text)

/-- `ensure_stick_id`; the file is there, or it cannot be read. -/
def ensureStickId (r : Reader) (m : Mint) (node : Text) (written : Written) (file : Option Text) :
    Except String Text × Option Text :=
  match file with
  | none => (.error "marker read", none)
  | some raw =>
    match parseMarker r raw with
    | none => (.error "marker is not parseable TOML", some raw)
    | some marker =>
      match marker.stickId with
      | some id => (.ok id, some raw)
      | none =>
        match written with
        | .made => (.ok m.stickId, some (upgradedMarker raw m.stickId node m.now))
        | .failed left => (.error "marker upgrade write", left)

/-- Later plugs, at any node. -/
structure Plug where
  mint : Mint
  node : Text
  written : Written

/-- What plugs answer one after another, and what they leave. -/
def ensureAll (r : Reader) : List Plug → Option Text → List (Except String Text) × Option Text
  | [], file => ([], file)
  | plug :: plugs, file =>
    let (answer, file) := ensureStickId r plug.mint plug.node plug.written file
    let (answers, file) := ensureAll r plugs file
    (answer :: answers, file)

/-! ### The purpose -/

/-- **A stick keeps its id**: the marker still is a document, with the same name, and all later
plugs answer the same and write nothing. -/
def Stable (r : Reader) (m : Mint) (node text : Text) : Prop :=
  ∀ marker, parseMarker r text = some marker → ∀ id file,
    ensureStickId r m node .made (some text) = (.ok id, file) →
      ∃ text' marker', file = some text' ∧ parseMarker r text' = some marker' ∧
        marker'.name = marker.name ∧
        ∀ plugs, ensureAll r plugs (some text') = (plugs.map fun _ => .ok id, some text')

/-- Lines of which none looks like the version, or one, and that one is its entry. -/
def VersionKept (r : Reader) (text : Text) : Prop :=
  (∀ line ∈ lines text, isVersionLine line = false) ∨
    ∃ before line after xs v, lines text = before ++ line :: after ∧
      (∀ other ∈ before ++ after, isVersionLine other = false) ∧ isVersionLine line = true ∧
      r.document (joined before) = some xs ∧
      r.read (line ++ ['\n']) = some [.entry [] "version" v]

/-- The keys that an upgrade sets. -/
def minted : List String := ["stick_id", "minted_by", "minted_at"]

/-- Entries at the end go to the root, and the keys that an upgrade sets are free. -/
structure Open (s : State) : Prop where
  current : s.current = []
  free : ∀ key ∈ minted, s.root.lookup key = none

/-! ### Reading on -/

variable {r : Reader}

theorem read_nil (r : Reader) : r.read [] = some [] := by
  have h := r.read_append (b := []) r.read_version (by decide)
  rw [List.append_nil, r.read_version] at h
  obtain ⟨xs, hxs, heq⟩ := Option.map_eq_some_iff.mp h.symm
  rw [hxs, List.append_cancel_left (heq.trans (List.append_nil _).symm)]

theorem getLast?_joined {ls : List Text} (h : ls ≠ []) : (joined ls).getLast? = some '\n' := by
  obtain ⟨front, last, rfl⟩ := List.eq_nil_or_concat ls |>.resolve_left h
  rw [List.concat_eq_append, joined_append, joined_cons, joined_nil, List.append_nil,
    ← List.append_assoc, List.getLast?_concat]

/-- What follows whole lines. -/
theorem read_joined {ls : List Text} {xs : List Stmt} (h : r.read (joined ls) = some xs)
    (b : Text) : r.read (joined ls ++ b) = (r.read b).map (xs ++ ·) := by
  cases ls with
  | nil =>
    rw [joined_nil, read_nil] at h
    obtain rfl := Option.some.inj h
    simp
  | cons l ls => exact r.read_append h (getLast?_joined (List.cons_ne_nil l ls))

theorem document_joined {ls : List Text} {xs : List Stmt} (h : r.document (joined ls) = some xs)
    {b : Text} (hb : b.head? ≠ some bom) :
    r.document (joined ls ++ b) = (r.read b).map (xs ++ ·) := by
  refine r.document_append h ?_
  cases ls with
  | nil => exact .inr ⟨rfl, hb⟩
  | cons l ls => exact .inl (getLast?_joined (List.cons_ne_nil l ls))

theorem head?_of_isVersionLine {line : Text} (h : isVersionLine line = true) (b : Text) :
    (line ++ b).head? ≠ some bom := by
  rw [isVersionLine, Bool.and_eq_true] at h
  cases line with
  | nil => exact nomatch h.1
  | cons c line =>
    intro hbom
    obtain rfl : c = bom := Option.some.inj hbom
    exact absurd h.1 (by
      rw [List.dropWhile_cons_of_neg (by decide)]
      exact Bool.false_ne_true)

theorem isPlain_of_all {t : Text} (h : (t.all fun c => decide (IsPlain c)) = true) :
    ∀ c ∈ t, IsPlain c := fun c hc => of_decide_eq_true (List.all_eq_true.mp h c hc)

theorem isBare_of_all {key : Text} (hne : key ≠ [])
    (h : (key.all fun c => decide (IsBare c)) = true) : key ≠ [] ∧ ∀ c ∈ key, IsBare c :=
  ⟨hne, fun c hc => of_decide_eq_true (List.all_eq_true.mp h c hc)⟩

theorem read_entry {k v : Text} {n : ℕ} {line rest : Text} {xs : List Stmt}
    (hline : line = k ++ List.replicate n ' ' ++ "= \"".toList ++ v ++ "\"\n".toList)
    (hkey : k ≠ [] ∧ ∀ c ∈ k, IsBare c) (hv : ∀ c ∈ v, IsPlain c)
    (hrest : r.read rest = some xs) :
    r.read (line ++ rest) = some (.entry [] (String.ofList k) (.string v) :: xs) := by
  have hend : line.getLast? = some '\n' := by
    rw [hline, List.getLast?_append]
    rfl
  have hread : r.read line = some [.entry [] (String.ofList k) (.string v)] := by
    rw [hline]
    exact r.read_string hkey n hv
  rw [r.read_append hread hend, hrest]
  rfl

theorem read_appended {stickId node now : Text} (hid : ∀ c ∈ stickId, IsPlain c)
    (hnode : ∀ c ∈ node, IsPlain c) (hnow : ∀ c ∈ now, IsPlain c) :
    r.read (appended stickId node now) = some [.entry [] "stick_id" (.string stickId),
      .entry [] "minted_by" (.string node), .entry [] "minted_at" (.string now)] := by
  have hnotice : ∀ c ∈ notice node, IsPlain c := by
    intro c hc
    rcases List.mem_append.mp hc with hc | hc
    · rcases List.mem_append.mp hc with hc | hc
      · exact isPlain_of_all (by decide) c hc
      · exact hnode c hc
    · exact isPlain_of_all (by decide) c hc
  have hend : ('#' :: (notice node ++ ['\n'])).getLast? = some '\n' := by
    rw [← List.cons_append, List.getLast?_concat]
  have hat := read_entry (r := r) (k := "minted_at".toList) (n := 1) rfl
    (isBare_of_all (by decide) (by decide)) hnow (read_nil r)
  have hby := read_entry (r := r) (k := "minted_by".toList) (n := 1) rfl
    (isBare_of_all (by decide) (by decide)) hnode hat
  have hstick := read_entry (r := r) (k := "stick_id".toList) (n := 2) rfl
    (isBare_of_all (by decide) (by decide)) hid hby
  rw [List.append_nil] at hstick
  rw [appended, r.read_append (r.read_comment hnotice) hend]
  exact (congrArg (Option.map ([] ++ ·)) hstick).trans rfl

/-- **The statements of the upgraded text**: the version aside, those of the marker, and the id. -/
theorem document_upgradedMarker {text stickId node now : Text} {stmts : List Stmt}
    (hversion : VersionKept r text) (h : r.document text = some stmts) {ids : List Stmt}
    (hids : r.read (appended stickId node now) = some ids) : ∃ stmts',
      r.document (upgradedMarker text stickId node now) = some (stmts' ++ ids) ∧
        (stmts' = stmts ∨ ∃ xs v ys, stmts = xs ++ .entry [] "version" v :: ys ∧
          stmts' = xs ++ .entry [] "version" (.integer 2) :: ys) := by
  have hlines := r.document_lines h
  have hkept (ls : List Text) (hls : ∀ line ∈ ls, isVersionLine line = false) :
      (ls.map fun line => if isVersionLine line then versionLine else line) = ls :=
    (List.map_congr_left fun line hline => if_neg (by simp [hls line hline])).trans
      (List.map_id' ls)
  have hbom : (appended stickId node now).head? ≠ some bom := (by decide : some '#' ≠ some bom)
  rw [upgradedMarker]
  obtain hnone | ⟨before, line, after, xs, v, hsplit, hothers, hline, hbefore, hread⟩ := hversion
  · rw [hkept _ hnone]
    exact ⟨stmts, by rw [document_joined hlines hbom, hids]; rfl, .inl rfl⟩
  · have hbefore' := hkept before fun other hother => hothers other (List.mem_append_left _ hother)
    have hafter' := hkept after fun other hother => hothers other (List.mem_append_right _ hother)
    -- the marker as it was
    rw [hsplit, joined_append, joined_cons, List.append_assoc,
      document_joined hbefore (head?_of_isVersionLine hline _), ← List.append_assoc,
      r.read_append hread List.getLast?_concat] at hlines
    obtain ⟨us, hus, rfl⟩ := Option.map_eq_some_iff.mp hlines
    obtain ⟨ys, hys, rfl⟩ := Option.map_eq_some_iff.mp hus
    refine ⟨xs ++ .entry [] "version" (.integer 2) :: ys, ?_, .inr ⟨xs, v, ys, rfl, rfl⟩⟩
    -- and as it is
    have hhead : (versionLine ++ ['\n'] ++ (joined after ++ appended stickId node now)).head? ≠
        some bom := (by decide : some 'v' ≠ some bom)
    rw [hsplit, List.map_append, List.map_cons, if_pos hline, hbefore', hafter', joined_append,
      joined_cons, List.append_assoc, List.append_assoc, document_joined hbefore hhead,
      r.read_append (a := versionLine ++ ['\n']) r.read_version List.getLast?_concat,
      read_joined hys, hids]
    simp

/-! ### The tables of the upgraded text -/

theorem ne_version_of_mem {key : String} (h : key ∈ minted) : key ≠ "version" := by
  rintro rfl
  exact absurd h (by decide)

/-- The entries that an upgrade appends. -/
def idEntries (stickId node now : Text) : List Stmt :=
  [.entry [] "stick_id" (.string stickId), .entry [] "minted_by" (.string node),
    .entry [] "minted_at" (.string now)]

/-- The root with these entries. -/
def withId (root : Entries) (stickId node now : Text) : Entries :=
  setEntry "minted_at" (.leaf (.string now)) (setEntry "minted_by" (.leaf (.string node))
    (setEntry "stick_id" (.leaf (.string stickId)) root))

theorem valueOf_withId (root : Entries) (stickId node now : Text) :
    valueOf (withId root stickId node now) "stick_id" = some (.string stickId) := by
  rw [valueOf, withId, lookup_setEntry_of_ne (by decide), lookup_setEntry_of_ne (by decide),
    lookup_setEntry_self]

theorem valueOf_withId_of_notMem {key : String} (h : key ∉ minted) (root : Entries)
    (stickId node now : Text) : valueOf (withId root stickId node now) key = valueOf root key := by
  have hne : key ≠ "stick_id" ∧ key ≠ "minted_by" ∧ key ≠ "minted_at" := by simpa [minted] using h
  rw [valueOf, withId, lookup_setEntry_of_ne hne.2.2, lookup_setEntry_of_ne hne.2.1,
    lookup_setEntry_of_ne hne.1, valueOf]

/-- In the root they are set where the keys are free. -/
theorem run_idEntries_root (root : Entries) (stickId node now : Text) :
    run ⟨root, []⟩ (idEntries stickId node now) =
      if ∀ key ∈ minted, root.lookup key = none then some ⟨withId root stickId node now, []⟩
      else none := by
  have hne : ("minted_by" : String) ≠ "stick_id" ∧ ("minted_at" : String) ≠ "stick_id" ∧
      ("minted_at" : String) ≠ "minted_by" := by decide
  simp only [minted, List.forall_mem_cons, List.not_mem_nil, false_imp_iff, implies_true, and_true]
  rw [idEntries, run_cons, exec_entry_root]
  by_cases hstick : root.lookup "stick_id" = none
  · rw [if_pos hstick, Option.bind_some, run_cons, exec_entry_root, lookup_setEntry_of_ne hne.1]
    by_cases hby : root.lookup "minted_by" = none
    · rw [if_pos hby, Option.bind_some, run_cons, exec_entry_root, lookup_setEntry_of_ne hne.2.2,
        lookup_setEntry_of_ne hne.2.1]
      by_cases hat : root.lookup "minted_at" = none
      · rw [if_pos hat, if_pos ⟨hstick, hby, hat⟩]
        rfl
      · rw [if_neg hat, if_neg fun h => hat h.2.2]
        rfl
    · rw [if_neg hby, if_neg fun h => hby h.2.1]
      rfl
  · rw [if_neg hstick, if_neg fun h => hstick h.1]
    rfl

/-- In a table they change no value of the root. -/
theorem run_entries_table {s t : State} (hcurrent : s.current ≠ []) {stmts : List Stmt}
    (hentries : ∀ stmt ∈ stmts, ∃ path key v, stmt = .entry path key v)
    (h : run s stmts = some t) (key : String) : valueOf t.root key = valueOf s.root key := by
  induction stmts generalizing s with
  | nil =>
    obtain rfl := Option.some.inj h
    rfl
  | cons stmt stmts ih =>
    obtain ⟨path, k, v, rfl⟩ := hentries stmt List.mem_cons_self
    rw [run_cons] at h
    obtain ⟨u, hu, hrun⟩ := Option.bind_eq_some_iff.mp h
    obtain ⟨hnext, hvalue⟩ := exec_entry_table hcurrent hu
    rw [ih (hnext ▸ hcurrent) (fun stmt hstmt => hentries stmt (List.mem_cons_of_mem _ hstmt)) hrun,
      hvalue]

/-- **The upgraded text**: the marker with another version, and then the id. -/
theorem fromStr_upgradedMarker {text stickId node now : Text} {s : State}
    (hversion : VersionKept r text) (h : fromStr r text = some s)
    (hid : ∀ c ∈ stickId, IsPlain c) (hnode : ∀ c ∈ node, IsPlain c)
    (hnow : ∀ c ∈ now, IsPlain c) : ∃ stmts,
      fromStr r (upgradedMarker text stickId node now) =
        (build stmts).bind (fun t => run t (idEntries stickId node now)) ∧
      (s.current = [] → (build stmts).isSome) ∧
      ∀ t, build stmts = some t → t.current = s.current ∧
        ∀ key ≠ "version", valueOf t.root key = valueOf s.root key ∧
          (s.current = [] → t.root.lookup key = s.root.lookup key) := by
  obtain ⟨stmts, hdoc, hbuild⟩ := Option.bind_eq_some_iff.mp h
  obtain ⟨stmts', hdoc', hcases⟩ :=
    document_upgradedMarker hversion hdoc (read_appended hid hnode hnow)
  refine ⟨stmts', ?_, ?_⟩
  · rw [fromStr, hdoc', Option.bind_some, build, run_append]
    rfl
  · rcases hcases with rfl | ⟨xs, v, ys, rfl, rfl⟩
    · refine ⟨fun _ => by rw [hbuild]; rfl, fun t ht => ?_⟩
      obtain rfl := Option.some.inj (hbuild.symm.trans ht)
      exact ⟨rfl, fun key _ => ⟨rfl, fun _ => rfl⟩⟩
    · refine ⟨fun hcurrent => Option.isSome_iff_exists.mpr (build_replace hbuild hcurrent),
        fun t ht => ?_⟩
      obtain ⟨hcurrent, first, isLeaf, hagree, hfirst⟩ := build_replace_agree hbuild ht
      refine ⟨hcurrent.symm, fun key hkey => ⟨(hagree.valueOf_eq ?_).symm, fun hnil => ?_⟩⟩
      · rcases hfirst with rfl | ⟨hnot, -⟩
        · exact .inl hkey
        · exact .inr hnot
      · rcases hfirst with rfl | ⟨-, hne⟩
        · exact (hagree.other key hkey).symm
        · exact absurd hnil hne

/-! ### The id -/

theorem mem_hexByte {b : UInt8} {c : Char} (h : c ∈ hexByte b) : ∃ n < 16, c = Nat.digitChar n := by
  have hb := b.toNat_lt
  simp only [hexByte, List.mem_cons, List.not_mem_nil, or_false] at h
  obtain rfl | rfl := h
  · exact ⟨_, by omega, rfl⟩
  · exact ⟨_, Nat.mod_lt _ (by decide), rfl⟩

/-- The id that is minted is of hexadecimal digits. -/
theorem Mint.stickId_plain (m : Mint) : ∀ c ∈ m.stickId, IsPlain c ∧ isWhitespace c = false := by
  intro c hc
  obtain ⟨b, -, hc⟩ := List.mem_flatMap.mp hc
  obtain ⟨n, hn, rfl⟩ := mem_hexByte hc
  exact (by decide : ∀ n < 16, IsPlain (Nat.digitChar n) ∧ isWhitespace (Nat.digitChar n) = false)
    n hn

theorem Mint.stickId_ne_nil (m : Mint) : m.stickId ≠ [] := by
  intro hnil
  have hlength := m.length
  rw [stickId, List.flatMap_eq_nil_iff] at hnil
  cases hbytes : m.bytes with
  | nil => simp [hbytes] at hlength
  | cons b bytes => exact nomatch hnil b (by simp [hbytes])

theorem trim_of_all {s : Text} (h : ∀ c ∈ s, isWhitespace c = false) : trim s = s := by
  rw [trim, List.dropWhile_eq_self_iff.mpr, List.rdropWhile_eq_self_iff.mpr]
  · intro hne
    simp [h _ (List.getLast_mem hne)]
  · intro hpos
    simp [h _ (List.getElem_mem hpos)]

/-! ### Plugs -/

theorem parseMarker_of_fromStr {text : Text} {s : State} (h : fromStr r text = some s) :
    parseMarker r text = some (markerOf s.root) := by
  rw [parseMarker, h, Option.map_some]

theorem ensureAll_of_stickId {text id : Text} {marker : Marker}
    (h : parseMarker r text = some marker) (hid : marker.stickId = some id) (plugs : List Plug) :
    ensureAll r plugs (some text) = (plugs.map fun _ => .ok id, some text) := by
  induction plugs with
  | nil => rfl
  | cons plug plugs ih =>
    have hensure : ensureStickId r plug.mint plug.node plug.written (some text) =
        (.ok id, some text) := by
      simp only [ensureStickId, h, hid]
    simp only [ensureAll, hensure, ih, List.map_cons]

/-- A marker that has an id keeps it. -/
theorem stable_of_stickId {m : Mint} {node text : Text}
    (h : ∀ marker, parseMarker r text = some marker → marker.stickId ≠ none) :
    Stable r m node text := by
  intro marker hmarker id file hensure
  obtain ⟨id', hid⟩ := Option.ne_none_iff_exists'.mp (h marker hmarker)
  simp only [ensureStickId, hmarker, hid] at hensure
  obtain ⟨hok, rfl⟩ := Prod.mk.inj hensure
  obtain rfl := Except.ok.inj hok
  exact ⟨text, marker, rfl, hmarker, rfl, ensureAll_of_stickId hmarker hid⟩

/-- An upgraded marker has the id that was minted, if the marker was open. -/
theorem stable_of_open {m : Mint} {node text : Text} (hversion : VersionKept r text)
    (hnode : ∀ c ∈ node, IsPlain c) {s : State} (hs : fromStr r text = some s)
    (hid : (markerOf s.root).stickId = none) (hopen : Open s) : Stable r m node text := by
  intro marker hmarker id file hensure
  obtain rfl := Option.some.inj ((parseMarker_of_fromStr hs).symm.trans hmarker)
  simp only [ensureStickId, hmarker, hid] at hensure
  obtain ⟨hok, rfl⟩ := Prod.mk.inj hensure
  obtain rfl := Except.ok.inj hok
  obtain ⟨stmts, hup, hsome, hbuild⟩ := fromStr_upgradedMarker hversion hs
    (fun c hc => (m.stickId_plain c hc).1) hnode m.plain
  obtain ⟨⟨root, current⟩, ht⟩ := Option.isSome_iff_exists.mp (hsome hopen.current)
  obtain ⟨hcurrent, hvalues⟩ := hbuild _ ht
  obtain rfl : current = [] := hcurrent.trans hopen.current
  have hfree : ∀ key ∈ minted, root.lookup key = none := fun key hkey => by
    have hne := ne_version_of_mem hkey
    rw [← hopen.free key hkey]
    exact (hvalues key hne).2 hopen.current
  rw [ht, Option.bind_some, run_idEntries_root, if_pos hfree] at hup
  have hparse := parseMarker_of_fromStr hup
  have hstick : (markerOf (withId root m.stickId node m.now)).stickId = some m.stickId := by
    simp [markerOf, valueOf_withId, asStr, trim_of_all fun c hc => (m.stickId_plain c hc).2,
      m.stickId_ne_nil]
  refine ⟨_, _, rfl, hparse, ?_, ensureAll_of_stickId hparse hstick⟩
  have hname : valueOf root "name" = valueOf s.root "name" := (hvalues "name" (by decide)).1
  rw [markerOf, markerOf, valueOf_withId_of_notMem (by decide : "name" ∉ minted), hname]

/-- A marker that keeps the id that was minted was open. -/
theorem open_of_stable {m : Mint} {node text : Text} (hversion : VersionKept r text)
    (hnode : ∀ c ∈ node, IsPlain c) {s : State} (hs : fromStr r text = some s)
    (hid : (markerOf s.root).stickId = none) (hstable : Stable r m node text) : Open s := by
  have hmarker := parseMarker_of_fromStr hs
  have hensure : ensureStickId r m node .made (some text) =
      (.ok m.stickId, some (upgradedMarker text m.stickId node m.now)) := by
    simp only [ensureStickId, hmarker, hid]
  obtain ⟨text', marker', htext, hmarker', -, hplugs⟩ := hstable _ hmarker _ _ hensure
  obtain rfl := Option.some.inj htext
  -- a later plug that cannot write shows that the id is there
  have hkept : marker'.stickId ≠ none := fun hnone => by
    have hplug := hplugs [⟨m, node, .failed none⟩]
    simp [ensureAll, ensureStickId, hmarker', hnone] at hplug
  obtain ⟨s', hs', rfl⟩ := Option.map_eq_some_iff.mp hmarker'
  obtain ⟨stmts, hup, -, hbuild⟩ := fromStr_upgradedMarker hversion hs
    (fun c hc => (m.stickId_plain c hc).1) hnode m.plain
  obtain ⟨t, ht, hrun⟩ := Option.bind_eq_some_iff.mp (hup.symm.trans hs')
  obtain ⟨hcurrent, hvalues⟩ := hbuild t ht
  have hroot : s.current = [] := by
    by_contra hne
    have hentries : ∀ stmt ∈ idEntries m.stickId node m.now,
        ∃ path key v, stmt = .entry path key v := by
      simp [idEntries]
    have hvalue := run_entries_table (hcurrent ▸ hne) hentries hrun "stick_id"
    rw [(hvalues "stick_id" (by decide)).1] at hvalue
    apply hkept
    rw [← hid, markerOf, markerOf, hvalue]
  obtain ⟨root, current⟩ := t
  obtain rfl : current = [] := hcurrent.trans hroot
  rw [run_idEntries_root] at hrun
  split at hrun
  · rename_i hfree
    refine ⟨hroot, fun key hkey => ?_⟩
    have hne := ne_version_of_mem hkey
    rw [← (hvalues key hne).2 hroot]
    exact hfree key hkey
  · cases hrun

/-- **When a stick keeps its id**: if its marker has one; and where what looks like the version is
it, and the name of the node is plain, just then or if the text ends in the root and the keys that
an upgrade sets are free. -/
theorem stable_iff (r : Reader) (m : Mint) (node text : Text) :
    ((∀ marker, parseMarker r text = some marker → marker.stickId ≠ none) →
      Stable r m node text) ∧
    (VersionKept r text ∧ (∀ c ∈ node, IsPlain c) → (Stable r m node text ↔
      ∀ s, fromStr r text = some s → (markerOf s.root).stickId ≠ none ∨ Open s)) := by
  refine ⟨stable_of_stickId, fun ⟨hversion, hnode⟩ => ⟨fun hstable s hs => ?_, fun h => ?_⟩⟩
  · by_cases hid : (markerOf s.root).stickId = none
    · exact .inr (open_of_stable hversion hnode hs hid hstable)
    · exact .inl hid
  · cases hs : fromStr r text with
    | none => exact stable_of_stickId fun marker hmarker => by simp [parseMarker, hs] at hmarker
    | some s =>
      by_cases hid : (markerOf s.root).stickId = none
      · exact stable_of_open hversion hnode hs hid ((h s hs).resolve_left fun hne => hne hid)
      · refine stable_of_stickId fun marker hmarker => ?_
        obtain rfl := Option.some.inj ((parseMarker_of_fromStr hs).symm.trans hmarker)
        exact hid

/-! ### A reader of single lines -/

/-- The lines of a text that ends a line. -/
def cutLines : Text → Option (List Text)
  | [] => some []
  | c :: cs =>
    match cutLines cs with
    | none => none
    | some ls =>
      if c = '\n' then some ([] :: ls)
      else match ls with
        | [] => none
        | l :: ls => some ((c :: l) :: ls)

def readValue : Text → Option Value
  | '"' :: cs =>
    if cs.getLast? = some '"' ∧ cs.dropLast.all (fun c => decide (IsPlain c)) then
      some (.string cs.dropLast)
    else none
  | cs =>
    if cs ≠ [] ∧ cs.all Char.isDigit then
      some (.integer (cs.foldl (fun n c => 10 * n + (c.toNat - 48)) 0))
    else none

def isBareKey (key : Text) : Bool := key ≠ [] && key.all fun c => decide (IsBare c)

/-- A comment, the header of a table in the root, or an entry with a bare key. -/
def readLine (line : Text) : Option (List Stmt) :=
  if line = [] ∨ line.head? = some '#' then some []
  else if line.head? = some '[' then
    let key := (line.drop 1).dropLast
    if line.getLast? = some ']' ∧ isBareKey key then some [.header [] (String.ofList key)] else none
  else
    let key := (line.takeWhile (· ≠ '=')).rdropWhile (· = ' ')
    let rest := line.dropWhile (· ≠ '=')
    if isBareKey key ∧ "= ".toList.isPrefixOf rest then
      (readValue (rest.drop 2)).map fun v => [.entry [] (String.ofList key) v]
    else none

def readLines (text : Text) : Option (List Stmt) :=
  if '\r' ∈ text then none else ((cutLines text).bind (·.mapM readLine)).map List.flatten

theorem cutLines_append {a : Text} {ls : List Text} (h : cutLines a = some ls) (b : Text) :
    cutLines (a ++ b) = (cutLines b).map (ls ++ ·) := by
  induction a generalizing ls with
  | nil =>
    obtain rfl := Option.some.inj h
    simp
  | cons c a ih =>
    rw [cutLines] at h
    rw [List.cons_append, cutLines]
    split at h
    · cases h
    · rename_i ls' hls'
      rw [ih hls']
      split at h
      · rename_i hc
        obtain rfl := Option.some.inj h
        cases cutLines b <;> simp [hc]
      · rename_i hc
        cases ls' with
        | nil => cases h
        | cons l ls' =>
          obtain rfl := Option.some.inj h
          cases cutLines b <;> simp [hc]

theorem cutLines_line {line : Text} (h : '\n' ∉ line) :
    cutLines (line ++ ['\n']) = some [line] := by
  induction line with
  | nil => rfl
  | cons c line ih =>
    have hc : c ≠ '\n' := fun heq => h (heq ▸ List.mem_cons_self)
    rw [List.cons_append, cutLines, ih fun hmem => h (List.mem_cons_of_mem _ hmem)]
    simp [hc]

theorem readLines_append {a b : Text} {xs : List Stmt} (h : readLines a = some xs) :
    readLines (a ++ b) = (readLines b).map (xs ++ ·) := by
  rw [readLines] at h
  split at h
  · cases h
  · rename_i ha
    obtain ⟨xss, hxss, rfl⟩ := Option.map_eq_some_iff.mp h
    obtain ⟨ls, hls, hmap⟩ := Option.bind_eq_some_iff.mp hxss
    rw [readLines, readLines]
    by_cases hb : '\r' ∈ b
    · rw [if_pos (List.mem_append_right a hb), if_pos hb, Option.map_none]
    · rw [if_neg (by simp [ha, hb]), if_neg hb, cutLines_append hls]
      cases cutLines b with
      | none => rfl
      | some more =>
        simp only [Option.map_some, Option.bind_some, List.mapM_append, hmap]
        cases more.mapM readLine <;> simp

theorem splitOn_of_cutLines {text : Text} {ls : List Text} (h : cutLines text = some ls) :
    text.splitOn '\n' = ls ++ [[]] ∧ joined ls = text := by
  induction text generalizing ls with
  | nil =>
    obtain rfl := Option.some.inj h
    exact ⟨rfl, rfl⟩
  | cons c text ih =>
    rw [cutLines] at h
    split at h
    · cases h
    · rename_i ls' hls'
      obtain ⟨hsplit, hjoined⟩ := ih hls'
      split at h
      · rename_i hc
        obtain rfl := Option.some.inj h
        subst hc
        refine ⟨?_, by simp [hjoined]⟩
        rw [List.splitOn, List.splitOnP_cons_eq_if_modifyHead,
          if_pos (beq_self_eq_true '\n'), ← List.splitOn, hsplit]
        rfl
      · rename_i hc
        cases ls' with
        | nil => cases h
        | cons l ls' =>
          obtain rfl := Option.some.inj h
          refine ⟨?_, by rw [← hjoined]; simp⟩
          rw [List.splitOn, List.splitOnP_cons_eq_if_modifyHead, if_neg (by simp [hc]),
            ← List.splitOn, hsplit]
          rfl

theorem readLines_lines {text : Text} {xs : List Stmt} (h : readLines text = some xs) :
    readLines (joined (lines text)) = some xs := by
  have hread := h
  rw [readLines] at h
  split at h
  · cases h
  · rename_i hr
    obtain ⟨xss, hxss, -⟩ := Option.map_eq_some_iff.mp h
    obtain ⟨ls, hls, -⟩ := Option.bind_eq_some_iff.mp hxss
    obtain ⟨hsplit, hjoined⟩ := splitOn_of_cutLines hls
    have hlines : lines text = ls := by
      have hcut : ∀ l ∈ ls, (if l.getLast? = some '\r' then l.dropLast else l) = l := by
        intro l hl
        refine if_neg fun hlast => hr ?_
        rw [← hjoined]
        exact List.mem_flatMap.mpr
          ⟨l, hl, List.mem_append_left _ (List.mem_of_getLast? hlast)⟩
      simp only [lines, hsplit, List.dropLast_concat, List.getLast?_concat]
      rw [List.map_congr_left hcut]
      simp
    rw [hlines, hjoined, hread]

theorem readLines_line {line : Text} (hn : '\n' ∉ line) (hr : '\r' ∉ line) :
    readLines (line ++ ['\n']) = readLine line := by
  rw [readLines, if_neg (by simp [hr]), cutLines_line hn]
  cases hline : readLine line <;> simp [hline]

theorem rdropWhile_padding (key : Text) (n : ℕ) :
    (key ++ List.replicate n ' ').rdropWhile (· = ' ') = key.rdropWhile (· = ' ') := by
  induction n with
  | zero => rw [List.replicate_zero, List.append_nil]
  | succ n ih =>
    rw [List.replicate_succ', ← List.append_assoc, List.rdropWhile_concat_pos _ _ _ (by decide), ih]

theorem readLine_string {key v : Text} (hkey : key ≠ [] ∧ ∀ c ∈ key, IsBare c) (n : ℕ)
    (hv : ∀ c ∈ v, IsPlain c) :
    readLine (key ++ List.replicate n ' ' ++ "= \"".toList ++ v ++ "\"".toList) =
      some [.entry [] (String.ofList key) (.string v)] := by
  obtain ⟨c, key', rfl⟩ := List.exists_cons_of_ne_nil hkey.1
  have hc := hkey.2 c List.mem_cons_self
  have hhash : c ≠ '#' := by rintro rfl; exact absurd hc (by decide)
  have hbracket : c ≠ '[' := by rintro rfl; exact absurd hc (by decide)
  have hpadded : ∀ d ∈ c :: key' ++ List.replicate n ' ', decide (d ≠ '=') = true := by
    intro d hd
    refine decide_eq_true ?_
    rintro rfl
    rcases List.mem_append.mp hd with hd | hd
    · exact absurd (hkey.2 _ hd) (by decide)
    · exact absurd (List.eq_of_mem_replicate hd) (by decide)
  have hline : c :: key' ++ List.replicate n ' ' ++ "= \"".toList ++ v ++ "\"".toList =
      (c :: key' ++ List.replicate n ' ') ++ '=' :: ' ' :: '"' :: (v ++ ['"']) := by
    simp
  have htake : (c :: key' ++ List.replicate n ' ' ++ "= \"".toList ++ v ++ "\"".toList).takeWhile
      (· ≠ '=') = c :: key' ++ List.replicate n ' ' := by
    rw [hline, List.takeWhile_append_of_pos hpadded, List.takeWhile_cons_of_neg (by decide),
      List.append_nil]
  have hdrop : (c :: key' ++ List.replicate n ' ' ++ "= \"".toList ++ v ++ "\"".toList).dropWhile
      (· ≠ '=') = '=' :: ' ' :: '"' :: (v ++ ['"']) := by
    rw [hline, List.dropWhile_append_of_pos hpadded, List.dropWhile_cons_of_neg (by decide)]
  have hkey' : (c :: key' ++ List.replicate n ' ').rdropWhile (· = ' ') = c :: key' := by
    rw [rdropWhile_padding, List.rdropWhile_eq_self_iff]
    intro hne hlast
    have hbare := hkey.2 _ (List.getLast_mem hne)
    rw [of_decide_eq_true hlast] at hbare
    exact absurd hbare (by decide)
  have hisBare : isBareKey (c :: key') = true := by
    rw [isBareKey, Bool.and_eq_true, List.all_eq_true]
    exact ⟨rfl, fun d hd => decide_eq_true (hkey.2 d hd)⟩
  have hvalue : readValue ('"' :: (v ++ ['"'])) = some (.string v) := by
    rw [readValue, List.getLast?_concat, List.dropLast_concat, if_pos]
    exact ⟨rfl, List.all_eq_true.mpr fun d hd => decide_eq_true (hv d hd)⟩
  rw [readLine, if_neg (by simp [hhash]), if_neg (by simp [hbracket])]
  simp only [htake, hdrop, hkey', hisBare]
  rw [if_pos ⟨trivial, rfl⟩, List.drop_succ_cons, List.drop_succ_cons, List.drop_zero, hvalue]
  rfl

theorem readLines_string {key v : Text} (hkey : key ≠ [] ∧ ∀ c ∈ key, IsBare c) (n : ℕ)
    (hv : ∀ c ∈ v, IsPlain c) :
    readLines (key ++ List.replicate n ' ' ++ "= \"".toList ++ v ++ "\"\n".toList) =
      some [.entry [] (String.ofList key) (.string v)] := by
  have hliteral {t : Text} (ht : (t.all fun d => d != '\n' && d != '\r') = true) (d : Char)
      (hd : d ∈ t) : d ≠ '\n' ∧ d ≠ '\r' := by
    simpa using List.all_eq_true.mp ht d hd
  have hends : ∀ d ∈ key ++ List.replicate n ' ' ++ "= \"".toList ++ v ++ "\"".toList,
      d ≠ '\n' ∧ d ≠ '\r' := by
    intro d hd
    simp only [List.mem_append] at hd
    rcases hd with (((hd | hd) | hd) | hd) | hd
    · have := hkey.2 d hd
      constructor <;> rintro rfl <;> exact absurd this (by decide)
    · rw [List.eq_of_mem_replicate hd]
      decide
    · exact hliteral (by decide) d hd
    · have := hv d hd
      constructor <;> rintro rfl <;> exact absurd this (by decide)
    · exact hliteral (by decide) d hd
  have hsplit : key ++ List.replicate n ' ' ++ "= \"".toList ++ v ++ "\"\n".toList =
      key ++ List.replicate n ' ' ++ "= \"".toList ++ v ++ "\"".toList ++ ['\n'] := by
    simp
  rw [hsplit, readLines_line (fun h => (hends _ h).1 rfl) (fun h => (hends _ h).2 rfl),
    readLine_string hkey n hv]

/-- A reader of documents of single lines. -/
def lineReader : Reader where
  document := readLines
  read := readLines
  document_nil := rfl
  document_append ha _ := readLines_append ha
  read_append ha _ := readLines_append ha
  document_lines := readLines_lines
  read_comment {t} ht := by
    rw [← List.cons_append, readLines_line (fun h => ?_) (fun h => ?_)]
    · rfl
    · exact absurd (ht '\n' (List.mem_of_ne_of_mem (by decide) h)) (by decide)
    · exact absurd (ht '\r' (List.mem_of_ne_of_mem (by decide) h)) (by decide)
  read_string := readLines_string
  read_version := by decide

/-! ### Two markers -/

def mint : Mint where
  bytes := List.replicate 8 0
  length := rfl
  now := "2026-07-01T00:00:00Z".toList
  plain := isPlain_of_all (by decide)

def prepared : Text := "version = 1\nname = \"apex\"\n".toList

/-- With a table at the end. -/
def tabled : Text := "version = 1\nname = \"apex\"\n[owner]\nby = \"me\"\n".toList

theorem versionKept_prepared : VersionKept lineReader prepared :=
  .inr ⟨[], "version = 1".toList, ["name = \"apex\"".toList], [], .integer 1, by decide, by decide,
    by decide, rfl, by decide⟩

theorem versionKept_tabled : VersionKept lineReader tabled :=
  .inr ⟨[], "version = 1".toList,
    ["name = \"apex\"".toList, "[owner]".toList, "by = \"me\"".toList], [], .integer 1, by decide,
    by decide, by decide, rfl, by decide⟩

theorem stable_iff_prepared : Stable lineReader mint "pi".toList prepared := by
  refine ((stable_iff lineReader mint "pi".toList prepared).2
    ⟨versionKept_prepared, isPlain_of_all (by decide)⟩).mpr fun s hs => .inr ?_
  have hfrom : fromStr lineReader prepared =
      some ⟨[("version", .leaf (.integer 1)), ("name", .leaf (.string "apex".toList))], []⟩ := rfl
  obtain rfl := Option.some.inj (hfrom.symm.trans hs)
  refine ⟨rfl, fun key hkey => ?_⟩
  simp only [minted, List.mem_cons, List.not_mem_nil, or_false] at hkey
  rcases hkey with rfl | rfl | rfl <;> rfl

/-- The id goes to the table, and the next plug finds none. -/
theorem not_stable_tabled : (parseMarker lineReader tabled).isSome ∧
    ¬ Stable lineReader mint "pi".toList tabled := by
  have hfrom : fromStr lineReader tabled =
      some ⟨[("version", .leaf (.integer 1)), ("name", .leaf (.string "apex".toList)),
        ("owner", .table .explicit [("by", .leaf (.string "me".toList))])], ["owner"]⟩ := rfl
  refine ⟨by rw [parseMarker, hfrom]; rfl, fun hstable => ?_⟩
  have hopen := open_of_stable versionKept_tabled (isPlain_of_all (by decide)) hfrom rfl hstable
  exact nomatch hopen.current

end ApexOS.Courier.StickMarker
