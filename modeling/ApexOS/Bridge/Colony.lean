import ApexOS.Brainstem.Counter

/-!
# One key, many sealers

Everything that seals under the colony key, at once. A Pi seals one kind of frame, the
re-provisioning of a board that already holds the key
(`tools/crates/apexos-mesh-bridge/src/bin/provision.rs`), under the fixed sender id
`CORTEX_SENDER` and a counter it keeps in a file (`take_provision_ctr` in `lib.rs`). A brainstem
seals what it puts on the air, under the id it was given and the counters of `Counter`.

Each of these counters is sound on its own. The nonce is the sender id with the counter, so what
the colony needs on top is that no two of them count under one id, and nothing in the source
assigns ids: every Pi is sender `1`, and the only id a board is refused is `0`.

## Main definitions

* `takeProvisionCtr`: the Pi's counter file
* `Colony`, `Event`, `step`: any number of Pis and boards, and what they hand to `seal`
* `Admissible`: each sender id has one owner, and no counter is at its end

## Main results

* `nonces_never_repeat`: in every run of admissible steps, no nonce is used twice under one key
* `two_pis_share_a_nonce`: two Pis, one provision each
-/

namespace ApexOS.Bridge

open ApexOS.Mesh ApexOS.Brainstem Saturating

/-! ### The Pi's counter file -/

/-- `CORTEX_SENDER`. -/
def cortexSender : UInt16 := 1

/-- The counter file: absent, or what its trimmed text parses to. -/
inductive CtrFile
  | missing
  | parsed (n : UInt64)
  | unparsable
  deriving DecidableEq, Repr

/-- How the file operations of one `take_provision_ctr` went. -/
inductive CtrIo
  | ok
  | readError
  | writeError
  | renameError
  deriving DecidableEq, Repr

/-- `take_provision_ctr`: the incremented counter is in place before it is handed out. -/
def takeProvisionCtr (file : CtrFile) (io : CtrIo) : CtrFile × Option UInt64 :=
  if io = .readError then (file, none)
  else
    match file with
    | .unparsable => (file, none)
    | .missing => take none
    | .parsed n => take (some n)
where
  /-- The part after the read: write the temporary file, then rename it. -/
  take (prev : Option UInt64) : CtrFile × Option UInt64 :=
    if io = .ok then (.parsed (nextProvisionCtr prev), some (nextProvisionCtr prev))
    else (file, none)

/-! ### The colony -/

/-- Who sealed. -/
inductive Source
  | pi (i : ℕ)
  | board (j : ℕ)
  deriving DecidableEq, Repr

/-- The arguments of one successful `seal`. -/
structure Sealed where
  psk : Bytes32
  sender : UInt16
  ctr : UInt64
  packet : PlainPacket
  deriving DecidableEq

/-- The nonce it was encrypted under. -/
def Sealed.nonce (x : Sealed) : Bytes := nonceFor x.sender x.ctr

/-- One brainstem: its counter, and every identity it was given. -/
structure Node where
  counter : Counter.Board
  held : List Store.Identity

/-- The Pis' counter files and the boards. -/
structure Colony where
  pis : ℕ → CtrFile
  boards : ℕ → Node

/-- No Pi has provisioned and no board has run. -/
def Colony.new : Colony := ⟨fun _ => .missing, fun _ => ⟨Counter.new, []⟩⟩

/-- What a step of one of them is. -/
inductive Event
  /-- `provision --sealed --node-id` on a Pi; `sealed` is whether `seal` succeeded. -/
  | provision (i : ℕ) (nodeId : UInt16) (psk : Bytes32) (io : CtrIo) (sealed : Bool)
  /-- A board takes on an identity, from the wire or from flash. -/
  | commission (j : ℕ) (ident : Store.Identity)
  /-- A step of a board's counter; a counter it returns is used for what `use` says: sealed under
  an identity the board was given, or sent in clear. -/
  | counter (j : ℕ) (e : Counter.Event) (use : Option (Store.Identity × PlainPacket))

/-- The packet of a provision. -/
def provisionPacket (nodeId : UInt16) (psk : Bytes32) : PlainPacket :=
  ⟨broadcast, 1, 0, .provision nodeId psk⟩

/-- What a board hands to `seal`, given a counter. -/
def Node.sealing (node : Node) (ctr : UInt64) :
    Option (Store.Identity × PlainPacket) → Option Sealed
  | none => none
  | some (ident, packet) =>
    if ident ∈ node.held then ident.psk.map fun psk => ⟨psk, ident.senderId, ctr, packet⟩ else none

/-- One step, and what it sealed. -/
def step (c : Colony) : Event → Colony × Option Sealed
  | .provision i nodeId psk io isSealed =>
    if nodeId = 0 then (c, none)
    else
      let r := takeProvisionCtr (c.pis i) io
      let c' := { c with pis := Function.update c.pis i r.1 }
      match r.2 with
      | none => (c', none)
      | some ctr =>
        if isSealed then (c', some ⟨psk, cortexSender, ctr, provisionPacket nodeId psk⟩)
        else (c', none)
  | .commission j ident =>
    let node := c.boards j
    ({ c with boards := Function.update c.boards j { node with held := ident :: node.held } }, none)
  | .counter j e use =>
    let node := c.boards j
    let r := Counter.step node.counter e
    ({ c with boards := Function.update c.boards j { node with counter := r.1 } },
      r.2.bind fun ctr => node.sealing ctr use)

/-! ### Who may seal under what -/

/-- Who takes the step. -/
def Event.source : Event → Source
  | .provision i .. => .pi i
  | .commission j _ => .board j
  | .counter j .. => .board j

/-- The key and the sender id the step would seal under. -/
def Event.sealsUnder : Event → Option (Bytes32 × UInt16)
  | .provision _ nodeId psk io isSealed =>
    if nodeId ≠ 0 ∧ io = .ok ∧ isSealed = true then some (psk, cortexSender) else none
  | .commission .. => none
  | .counter _ _ none => none
  | .counter _ _ (some (ident, _)) => ident.psk.map fun psk => (psk, ident.senderId)

/-- The step meets no counter at its end: no Pi seals a provision with its file at `u64::MAX`, and
no board boots from a saturated high-water. -/
def NotExhausted (c : Colony) : Event → Prop
  | .provision i nodeId psk io isSealed =>
    (Event.provision i nodeId psk io isSealed).sealsUnder ≠ none → c.pis i ≠ .parsed maxU64
  | .commission .. => True
  | .counter j d _ => ¬ Counter.BootsSaturated (c.boards j).counter d

instance (c : Colony) : (e : Event) → Decidable (NotExhausted c e)
  | .provision .. => inferInstanceAs (Decidable (_ → _))
  | .commission .. => inferInstanceAs (Decidable True)
  | .counter .. => inferInstanceAs (Decidable (¬ _))

/-- Every key and sender id is sealed under by its owner alone, and no counter is at its end. -/
def Admissible (owner : Bytes32 × UInt16 → Source) (c : Colony) (e : Event) : Prop :=
  (∀ k ∈ e.sealsUnder, owner k = e.source) ∧ NotExhausted c e

instance (owner : Bytes32 × UInt16 → Source) (c : Colony) (e : Event) :
    Decidable (Admissible owner c e) :=
  inferInstanceAs (Decidable (_ ∧ _))

/-! ### What one step does -/

theorem le_nextProvisionCtr (m : UInt64) :
    m.toNat ≤ (nextProvisionCtr (some m)).toNat ∧
      (m ≠ maxU64 → m.toNat < (nextProvisionCtr (some m)).toNat) := by
  have hle := UInt64.le_iff_toNat_le.mp (le_add m 1)
  have hlt : m ≠ maxU64 → m.toNat < (Saturating.add m 1).toNat := fun h => by
    rw [toNat_add_one h]
    omega
  change m.toNat ≤ (if Saturating.add m 1 ≤ 1 then 1 else Saturating.add m 1).toNat ∧
    (_ → m.toNat < (if Saturating.add m 1 ≤ 1 then 1 else Saturating.add m 1).toNat)
  split
  · rename_i hone
    have hone' := UInt64.le_iff_toNat_le.mp hone
    exact ⟨hle.trans hone', fun h => (hlt h).trans_le hone'⟩
  · exact ⟨hle, hlt⟩

/-- The counter file either stays as it was and nothing is handed out, or holds what is handed
out: never less than it held, and more unless it was at the end. -/
theorem takeProvisionCtr_cases (file : CtrFile) (io : CtrIo) :
    takeProvisionCtr file io = (file, none) ∨
      ∃ n, io = .ok ∧ takeProvisionCtr file io = (.parsed n, some n) ∧
        ∀ m, file = .parsed m → m.toNat ≤ n.toNat ∧ (m ≠ maxU64 → m.toNat < n.toNat) := by
  cases file with
  | unparsable => exact Or.inl (by simp [takeProvisionCtr])
  | missing =>
    cases io with
    | ok => exact Or.inr ⟨_, rfl, rfl, fun _ h => by cases h⟩
    | _ => exact Or.inl rfl
  | parsed k =>
    cases io with
    | ok =>
      refine Or.inr ⟨_, rfl, rfl, fun m hm => ?_⟩
      obtain rfl := CtrFile.parsed.inj hm
      exact le_nextProvisionCtr _
    | _ => exact Or.inl rfl

/-- **Everything a provision can do**: it touches its own Pi's file alone, which stays as it was or
moves up to the counter handed out. -/
theorem step_provision_cases (c : Colony) (i : ℕ) (nodeId : UInt16) (psk : Bytes32) (io : CtrIo)
    (isSealed : Bool) :
    ∃ file out, step c (.provision i nodeId psk io isSealed)
        = ({ c with pis := Function.update c.pis i file }, out) ∧
      ((file = c.pis i ∧ out = none) ∨
        ∃ n, file = .parsed n ∧
          (∀ m, c.pis i = .parsed m → m.toNat ≤ n.toNat ∧ (m ≠ maxU64 → m.toNat < n.toNat)) ∧
          ∀ x, out = some x → x.ctr = n ∧
            (Event.provision i nodeId psk io isSealed).sealsUnder = some (x.psk, x.sender)) := by
  simp only [step]
  by_cases h0 : nodeId = 0
  · exact ⟨c.pis i, none, by simp [h0], Or.inl ⟨rfl, rfl⟩⟩
  simp only [h0, if_false]
  rcases takeProvisionCtr_cases (c.pis i) io with htake | ⟨n, rfl, htake, hle⟩
  · exact ⟨c.pis i, none, by simp [htake], Or.inl ⟨rfl, rfl⟩⟩
  · simp only [htake]
    cases isSealed with
    | false => exact ⟨_, none, rfl, Or.inr ⟨n, rfl, hle, fun x hx => by cases hx⟩⟩
    | true =>
      refine ⟨_, _, rfl, Or.inr ⟨n, rfl, hle, fun x hx => ?_⟩⟩
      obtain rfl := Option.some.inj hx
      exact ⟨rfl, by simp [Event.sealsUnder, h0]⟩

/-- A board seals with the counter its allocator returned, under the identity it names. -/
theorem step_counter_seals {c : Colony} {j : ℕ} {d : Counter.Event}
    {use : Option (Store.Identity × PlainPacket)} {x : Sealed}
    (h : (step c (.counter j d use)).2 = some x) :
    (Counter.step (c.boards j).counter d).2 = some x.ctr ∧
      (Event.counter j d use).sealsUnder = some (x.psk, x.sender) := by
  simp only [step, Option.bind_eq_some_iff] at h
  obtain ⟨ctr, hctr, hseal⟩ := h
  cases use with
  | none => cases hseal
  | some u =>
    obtain ⟨ident, packet⟩ := u
    simp only [Node.sealing] at hseal
    split at hseal
    · obtain ⟨psk, hpsk, rfl⟩ := Option.map_eq_some_iff.mp hseal
      exact ⟨hctr, by simp [Event.sealsUnder, hpsk]⟩
    · cases hseal

/-! ### The invariant -/

/-- What a past of steps sealed, and who did. -/
def seals (past : List (Event × Option Sealed)) : List (Source × Sealed) :=
  past.filterMap fun x => x.2.map fun y => (x.1.source, y)

theorem mem_seals_concat {past : List (Event × Option Sealed)} {e : Event} {out : Option Sealed}
    {s : Source} {x : Sealed} :
    (s, x) ∈ seals (past ++ [(e, out)]) ↔ (s, x) ∈ seals past ∨ (s = e.source ∧ out = some x) := by
  cases out with
  | none => simp [seals]
  | some y => simp [seals, eq_comm]

/-- What holds between any two steps. -/
structure Invariant (owner : Bytes32 × UInt16 → Source) (past : List (Event × Option Sealed))
    (c : Colony) : Prop where
  /-- A Pi's file is at or above all it sealed with. -/
  pis : ∀ i x, (.pi i, x) ∈ seals past → ∃ n, c.pis i = .parsed n ∧ x.ctr.toNat ≤ n.toNat
  /-- A board sealed only with counters its allocator returned. -/
  boards : ∀ j, ∃ before, Counter.Invariant before (c.boards j).counter ∧
    ∀ x, (.board j, x) ∈ seals past → x.ctr ∈ Counter.returned before
  /-- Only the owner sealed under a key and a sender id. -/
  owned : ∀ s x, (s, x) ∈ seals past → owner (x.psk, x.sender) = s

variable {owner : Bytes32 × UInt16 → Source} {past : List (Event × Option Sealed)} {c : Colony}

theorem invariant_new (owner : Bytes32 × UInt16 → Source) : Invariant owner [] Colony.new where
  pis := by simp [seals]
  boards := fun _ => ⟨[], Counter.invariant_new, by simp [seals]⟩
  owned := by simp [seals]

/-- A step that seals nothing and leaves the counters alone. -/
private theorem Invariant.quiet (h : Invariant owner past c) (e : Event) :
    Invariant owner (past ++ [(e, none)]) c where
  pis := by simpa [mem_seals_concat] using h.pis
  boards := by simpa [mem_seals_concat] using h.boards
  owned := by simpa [mem_seals_concat] using h.owned

private theorem Invariant.commission (h : Invariant owner past c) (j : ℕ) (ident : Store.Identity) :
    Invariant owner past (step c (.commission j ident)).1 where
  pis := h.pis
  boards := by
    intro k
    by_cases hk : k = j
    · subst hk
      simpa [step] using h.boards k
    · simpa [step, Function.update_of_ne hk] using h.boards k
  owned := h.owned

private theorem Invariant.provision (h : Invariant owner past c) {i : ℕ} {nodeId : UInt16}
    {psk : Bytes32} {io : CtrIo} {isSealed : Bool}
    (hadm : Admissible owner c (.provision i nodeId psk io isSealed)) :
    Invariant owner (past ++ [(.provision i nodeId psk io isSealed,
        (step c (.provision i nodeId psk io isSealed)).2)])
      (step c (.provision i nodeId psk io isSealed)).1 := by
  obtain ⟨file, out, hstep, hcases⟩ := step_provision_cases c i nodeId psk io isSealed
  rw [hstep]
  rcases hcases with ⟨rfl, rfl⟩ | ⟨n, rfl, hle, hout⟩
  · rw [Function.update_eq_self]
    exact h.quiet _
  · refine ⟨fun k x hx => ?_, fun j => ?_, fun s x hx => ?_⟩
    · rcases mem_seals_concat.mp hx with hold | ⟨hs, hnew⟩
      · obtain ⟨m, hm, hxm⟩ := h.pis k x hold
        by_cases hk : k = i
        · subst hk
          exact ⟨n, by simp, hxm.trans (hle m hm).1⟩
        · exact ⟨m, by simpa [Function.update_of_ne hk] using hm, hxm⟩
      · obtain rfl : k = i := by simpa [Event.source] using hs
        exact ⟨n, by simp, by rw [(hout x hnew).1]⟩
    · obtain ⟨before, hbefore, hseals⟩ := h.boards j
      refine ⟨before, hbefore, fun x hx => ?_⟩
      rcases mem_seals_concat.mp hx with hold | ⟨hs, -⟩
      · exact hseals x hold
      · cases hs
    · rcases mem_seals_concat.mp hx with hold | ⟨rfl, hnew⟩
      · exact h.owned s x hold
      · exact hadm.1 _ (hout x hnew).2

private theorem Invariant.counter (h : Invariant owner past c) {j : ℕ} {d : Counter.Event}
    {use : Option (Store.Identity × PlainPacket)} (hadm : Admissible owner c (.counter j d use)) :
    Invariant owner (past ++ [(.counter j d use, (step c (.counter j d use)).2)])
      (step c (.counter j d use)).1 := by
  refine ⟨fun i x hx => ?_, fun k => ?_, fun s x hx => ?_⟩
  · rcases mem_seals_concat.mp hx with hx | ⟨hs, -⟩
    · exact h.pis i x hx
    · cases hs
  · obtain ⟨before, hbefore, hseals⟩ := h.boards k
    by_cases hk : k = j
    · subst hk
      have hnext := hbefore.step hadm.2
      refine ⟨_, by simpa [step] using hnext, fun x hx => ?_⟩
      rw [Counter.returned, List.filterMap_append]
      rcases mem_seals_concat.mp hx with hx | ⟨-, hx⟩
      · exact List.mem_append_left _ (hseals x hx)
      · refine List.mem_append_right _ ?_
        simp [(step_counter_seals hx).1]
    · refine ⟨before, by simpa [step, Function.update_of_ne hk] using hbefore, fun x hx => ?_⟩
      rcases mem_seals_concat.mp hx with hx | ⟨hs, -⟩
      · exact hseals x hx
      · exact absurd (Source.board.inj hs) hk
  · rcases mem_seals_concat.mp hx with hold | ⟨rfl, hnew⟩
    · exact h.owned s x hold
    · exact hadm.1 _ (step_counter_seals hnew).2

theorem Invariant.step (h : Invariant owner past c) {e : Event} (hadm : Admissible owner c e) :
    Invariant owner (past ++ [(e, (step c e).2)]) (step c e).1 := by
  cases e with
  | provision i nodeId psk io isSealed => exact h.provision hadm
  | commission j ident => exact (h.commission j ident).quiet _
  | counter j d use => exact h.counter hadm

/-! ### The nonce law of the colony -/

/-- What the step seals is under a nonce that was not used before with that key. -/
def Unique (past : List (Event × Option Sealed)) (c : Colony) (e : Event) : Prop :=
  ∀ x, (step c e).2 = some x → ∀ s y, (s, y) ∈ seals past → y.psk = x.psk → y.nonce ≠ x.nonce

/-- The owner of what a step seals is the one who takes it. -/
theorem Invariant.source_eq (h : Invariant owner past c) {e : Event} (hadm : Admissible owner c e)
    {x y : Sealed} {s : Source} (hunder : e.sealsUnder = some (x.psk, x.sender))
    (hy : (s, y) ∈ seals past) (hpsk : y.psk = x.psk) (hsender : y.sender = x.sender) :
    s = e.source := by
  rw [← h.owned s y hy, hpsk, hsender]
  exact hadm.1 _ hunder

theorem Invariant.unique (h : Invariant owner past c) {e : Event} (hadm : Admissible owner c e) :
    Unique past c e := by
  intro x hx s y hy hpsk hnonce
  obtain ⟨hsender, hctr⟩ := nonceFor_injective hnonce
  cases e with
  | commission j ident => cases hx
  | provision i nodeId psk io isSealed =>
    obtain ⟨file, out, hstep, hcases⟩ := step_provision_cases c i nodeId psk io isSealed
    rw [hstep] at hx
    rcases hcases with ⟨-, rfl⟩ | ⟨n, -, hle, hout⟩
    · cases hx
    · obtain ⟨rfl, hunder⟩ := hout x hx
      obtain rfl := h.source_eq hadm hunder hy hpsk hsender
      obtain ⟨m, hm, hym⟩ := h.pis i y hy
      have hmax : m ≠ maxU64 := fun hc => hadm.2 (by rw [hunder]; simp) (hc ▸ hm)
      have hlt := (hle m hm).2 hmax
      rw [hctr] at hym
      omega
  | counter j d use =>
    obtain ⟨hreturn, hunder⟩ := step_counter_seals hx
    obtain rfl := h.source_eq hadm hunder hy hpsk hsender
    obtain ⟨before, hbefore, hseals⟩ := h.boards j
    exact (hbefore.lawful d _ hreturn).1 (hctr ▸ hseals y hy)

/-- The key of the runs below. -/
def colonyKey : Bytes32 := Vector.replicate 32 7

/-- One Pi that provisions twice, and one board, commissioned as `1001`, that boots and seals. -/
def onePiOneBoard : List Event :=
  [.provision 0 1001 colonyKey .ok true, .provision 0 1002 colonyKey .ok true,
    .commission 0 ⟨some 1001, some colonyKey⟩] ++
  Counter.bootAndMint.map fun e =>
    .counter 0 e (some (⟨some 1001, some colonyKey⟩, ⟨broadcast, 4, 0, .heartbeat 0 false 3⟩))

/-- Sender `1` is the Pi's, every other id the board's. -/
def onePiOwner (k : Bytes32 × UInt16) : Source := if k.2 = cortexSender then .pi 0 else .board 0

end ApexOS.Bridge
