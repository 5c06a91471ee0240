import ApexOS.Brainstem.Store
import ApexOS.Mesh.Crypto

/-!
# The brainstem's counter allocator

`firmware/brainstem/src/counter.rs` with the two places that feed it: `reserve_counters` in
`store.rs`, and the boot sequence and `counter_task` in `main.rs`. A counter is an AEAD nonce, so
the rule is that no value is ever handed out twice, over reboots and power cuts.

The board is a machine whose inputs are its atomic steps. A reservation is a read, a write and
an adoption, each its own step; `try_next` is a load of `NEXT`, a comparison with `CEILING` and a
compare-and-swap, each its own step, for any number of tasks at once. A power cut may come
between any two steps and takes everything in RAM with it. A read may fail, and a write may fail
with the old or the new high-water in place, so a run of this machine is any interleaving with
any faults.

The whole argument is that flash is ahead of RAM: what was handed out is at most the high-water
in flash, and a boot resumes above it. It has one gap. The high-water saturates at `u64::MAX`,
and a boot that reads it there resumes *at* it.

## Main definitions

* `Board`, `Event`, `step`: the machine
* `BootsSaturated`: a boot whose reservation reads a saturated high-water

## Main results

* `Invariant.step`: flash stays ahead of RAM through every step
* `try_next_never_repeats`: no value twice, none zero, none above the high-water in flash, in
  every run without a saturated boot
-/

namespace ApexOS.Brainstem.Counter

open ApexOS.Mesh ApexOS.Brainstem.Store Saturating

/-! ### The machine -/

/-- `CTR_RESERVATION`. -/
def ctrReservation : UInt64 := 1024

/-- `CTR_LOW_WATER`. -/
def ctrLowWater : UInt64 := 128

/-- Where `main` stands with the boot-time reservation; the tasks are spawned at `running`. -/
inductive Boot
  | reserving
  | fetched (previous next : UInt64)
  | stored (previous next : UInt64)
  | running
  deriving DecidableEq, Repr

/-- Where `counter_task` stands. -/
inductive TopUp
  | idle
  | wanted
  | fetched (next : UInt64)
  | stored (next : UInt64)
  deriving DecidableEq, Repr

/-- Where one task stands inside `try_next`. -/
inductive Caller
  | idle
  | loaded (n : UInt64)
  | checked (n : UInt64)
  deriving DecidableEq, Repr

/-- The board: one record in flash, and the rest in RAM. -/
structure Board where
  /-- The record under `KEY_CTR_HW`. -/
  flash : Option UInt64
  /-- `NEXT`. -/
  next : UInt64
  /-- `CEILING`. -/
  ceiling : UInt64
  boot : Boot
  topUp : TopUp
  callers : ℕ → Caller

/-- The atomic steps. -/
inductive Event
  | powerCut
  | bootFetch (ok : Bool)
  | bootStore (out : WriteOutcome)
  | bootInit
  | topUpWake
  | topUpFetch (ok : Bool)
  | topUpStore (out : WriteOutcome)
  | topUpRaise
  | load (task : ℕ)
  | check (task : ℕ)
  | swap (task : ℕ)
  deriving DecidableEq, Repr

/-- Power comes on: RAM is as the statics say, flash as it was left. -/
def powerOn (flash : Option UInt64) : Board := ⟨flash, 0, 0, .reserving, .idle, fun _ => .idle⟩

/-- A board that never ran. -/
def new : Board := powerOn none

/-- The read half of `reserve_counters`, down to `reserve_from_stored`. -/
def reserveFetch (flash : Option UInt64) (ok : Bool) : Except Unit (UInt64 × UInt64) :=
  reserveFromStored (if ok then .ok flash else .error ()) ctrReservation

/-- The write half of `reserve_counters`. -/
def reserveStore (flash : Option UInt64) (next : UInt64) : WriteOutcome → Option UInt64 × Bool
  | .stored => (some next, true)
  | .failedOld => (flash, false)
  | .failedNew => (some next, false)

/-- `counter::init`. -/
def init (b : Board) (previousHighWater newCeiling : UInt64) : Board :=
  { b with next := Saturating.add previousHighWater 1, ceiling := newCeiling }

/-- `counter::raise_ceiling`. -/
def raiseCeiling (b : Board) (newCeiling : UInt64) : Board :=
  { b with ceiling := max b.ceiling newCeiling }

/-- `counter::remaining`. -/
def remaining (b : Board) : UInt64 := Saturating.sub b.ceiling b.next

/-- One step, and the counter it returns from `try_next`, if it does. A step that is not due does
nothing. The swap stores `n + 1` with wrap-around, as a release build does. -/
def step (b : Board) : Event → Board × Option UInt64
  | .powerCut => (powerOn b.flash, none)
  | .bootFetch ok =>
    match b.boot with
    | .reserving =>
      match reserveFetch b.flash ok with
      | .ok (previous, next) => ({ b with boot := .fetched previous next }, none)
      | .error () => ({ b with boot := .running }, none)
    | _ => (b, none)
  | .bootStore out =>
    match b.boot with
    | .fetched previous next =>
      let r := reserveStore b.flash next out
      ({ b with flash := r.1, boot := if r.2 then .stored previous next else .running }, none)
    | _ => (b, none)
  | .bootInit =>
    match b.boot with
    | .stored previous next => ({ init b previous next with boot := .running }, none)
    | _ => (b, none)
  | .topUpWake =>
    if b.boot = .running ∧ b.topUp = .idle ∧ remaining b < ctrLowWater then
      ({ b with topUp := .wanted }, none)
    else (b, none)
  | .topUpFetch ok =>
    match b.topUp with
    | .wanted =>
      match reserveFetch b.flash ok with
      | .ok (_, next) => ({ b with topUp := .fetched next }, none)
      | .error () => ({ b with topUp := .idle }, none)
    | _ => (b, none)
  | .topUpStore out =>
    match b.topUp with
    | .fetched next =>
      let r := reserveStore b.flash next out
      ({ b with flash := r.1, topUp := if r.2 then .stored next else .idle }, none)
    | _ => (b, none)
  | .topUpRaise =>
    match b.topUp with
    | .stored next => ({ raiseCeiling b next with topUp := .idle }, none)
    | _ => (b, none)
  | .load task =>
    if b.boot = .running ∧ b.callers task = .idle then
      ({ b with callers := Function.update b.callers task (.loaded b.next) }, none)
    else (b, none)
  | .check task =>
    match b.callers task with
    | .loaded n =>
      let phase := if n = 0 ∨ b.ceiling < n then Caller.idle else .checked n
      ({ b with callers := Function.update b.callers task phase }, none)
    | _ => (b, none)
  | .swap task =>
    match b.callers task with
    | .checked n =>
      let callers := Function.update b.callers task .idle
      if b.next = n then ({ b with next := n + 1, callers := callers }, some n)
      else ({ b with callers := callers }, none)
    | _ => (b, none)

/-! ### Flash is ahead of RAM -/

/-- The counters a past of steps returned. -/
def returned (past : List (Event × Option UInt64)) : List UInt64 := past.filterMap Prod.snd

@[simp] theorem returned_concat_none (past : List (Event × Option UInt64)) (e : Event) :
    returned (past ++ [(e, none)]) = returned past := by simp [returned]

@[simp] theorem returned_concat_some (past : List (Event × Option UInt64)) (e : Event)
    (n : UInt64) : returned (past ++ [(e, some n)]) = returned past ++ [n] := by simp [returned]

/-- The high-water in flash; a missing record is `0`. -/
def highWater (flash : Option UInt64) : ℕ := (flash.getD 0).toNat

@[simp] theorem highWater_some (c : UInt64) : highWater (some c) = c.toNat := rfl

/-- A boot whose reservation reads a high-water that has saturated. -/
def BootsSaturated (b : Board) (e : Event) : Prop :=
  e = .bootFetch true ∧ b.boot = .reserving ∧ b.flash = some maxU64

instance (b : Board) (e : Event) : Decidable (BootsSaturated b e) :=
  inferInstanceAs (Decidable (_ ∧ _ ∧ _))

/-- What the boot sequence owes at each of its points. -/
def BootOk (values : List UInt64) (flash : Option UInt64) : Boot → Prop
  | .fetched previous next =>
    previous ≠ maxU64 ∧ previous.toNat = highWater flash ∧ previous.toNat ≤ next.toNat
  | .stored previous next =>
    previous ≠ maxU64 ∧ highWater flash = next.toNat ∧ ∀ n ∈ values, n.toNat ≤ previous.toNat
  | _ => True

/-- What `counter_task` owes at each of its points. -/
def TopUpOk (flash : Option UInt64) : TopUp → Prop
  | .fetched next => highWater flash ≤ next.toNat
  | .stored next => next.toNat ≤ highWater flash
  | _ => True

/-- What holds between any two steps, given the values returned so far. -/
structure Invariant (past : List (Event × Option UInt64)) (b : Board) : Prop where
  /-- What was returned is in the block that flash promises. -/
  minted : ∀ n ∈ returned past, n ≠ 0 ∧ n.toNat ≤ highWater b.flash
  /-- RAM promises no more than flash. -/
  promised : b.ceiling.toNat ≤ highWater b.flash
  /-- What is next is above all that was. -/
  ahead : b.next ≠ 0 → ∀ n ∈ returned past, n.toNat < b.next.toNat
  booting : BootOk (returned past) b.flash b.boot
  toppingUp : TopUpOk b.flash b.topUp
  /-- A caller past its check holds a promised value. -/
  calling : ∀ task n, b.callers task = .checked n → n ≠ 0 ∧ n.toNat ≤ highWater b.flash
  /-- Nothing runs before the boot is over. -/
  asleep : b.boot ≠ .running →
    b.next = 0 ∧ b.topUp = .idle ∧ ∀ task, b.callers task = .idle

theorem invariant_new : Invariant [] new where
  minted := by simp [returned]
  promised := by simp [new, powerOn]
  ahead := by simp [new, powerOn]
  booting := trivial
  toppingUp := trivial
  calling := by simp [new, powerOn]
  asleep := fun _ => ⟨rfl, rfl, fun _ => rfl⟩

/-! ### What a reservation does -/

theorem reserveFetch_spec {flash : Option UInt64} {ok : Bool} {previous next : UInt64}
    (h : reserveFetch flash ok = .ok (previous, next)) :
    ok = true ∧ previous.toNat = highWater flash ∧ previous.toNat ≤ next.toNat ∧
      (previous = maxU64 → flash = some maxU64) := by
  cases ok with
  | false => cases h
  | true =>
    cases flash with
    | none =>
      obtain ⟨rfl, rfl⟩ : 0 = previous ∧ ctrReservation = next := by
        simpa [reserveFetch, reserveFromStored] using h
      exact ⟨rfl, rfl, by simp, fun h => by cases h⟩
    | some v =>
      obtain ⟨rfl, rfl⟩ : v = previous ∧ Saturating.add v ctrReservation = next := by
        simpa [reserveFetch, reserveFromStored] using h
      exact ⟨rfl, rfl, UInt64.le_iff_toNat_le.mp (le_add _ _), fun h => h ▸ rfl⟩

theorem reserveStore_spec (flash : Option UInt64) (next : UInt64) (out : WriteOutcome) :
    ((reserveStore flash next out).1 = flash ∨ (reserveStore flash next out).1 = some next) ∧
      ((reserveStore flash next out).2 = true → (reserveStore flash next out).1 = some next) := by
  cases out with
  | stored => exact ⟨Or.inr rfl, fun _ => rfl⟩
  | failedOld => exact ⟨Or.inl rfl, fun h => by cases h⟩
  | failedNew => exact ⟨Or.inr rfl, fun _ => rfl⟩

theorem le_highWater_reserveStore {flash : Option UInt64} {next : UInt64}
    (h : highWater flash ≤ next.toNat) (out : WriteOutcome) :
    highWater flash ≤ highWater (reserveStore flash next out).1 := by
  rcases (reserveStore_spec flash next out).1 with heq | heq
  · rw [heq]
  · rw [heq]
    exact h

/-! ### Every step keeps the invariant -/

variable {past : List (Event × Option UInt64)} {b : Board}

/-- A step that returns nothing leaves the returned values as they were. -/
theorem Invariant.quiet (h : Invariant past b) (e : Event) : Invariant (past ++ [(e, none)]) b where
  minted := by simpa using h.minted
  promised := h.promised
  ahead := by simpa using h.ahead
  booting := by simpa using h.booting
  toppingUp := h.toppingUp
  calling := h.calling
  asleep := h.asleep

/-- Only flash survives a power cut, and it is all that is needed. -/
theorem Invariant.powerOn (h : Invariant past b) : Invariant past (powerOn b.flash) where
  minted := h.minted
  promised := Nat.zero_le _
  ahead := fun hne => absurd rfl hne
  booting := trivial
  toppingUp := trivial
  calling := fun _ _ ht => by cases ht
  asleep := fun _ => ⟨rfl, rfl, fun _ => rfl⟩

/-- A change of the boot phase alone. -/
theorem Invariant.withBoot (h : Invariant past b) {boot : Boot} (hb : b.boot ≠ .running)
    (hok : BootOk (returned past) b.flash boot) : Invariant past { b with boot := boot } where
  minted := h.minted
  promised := h.promised
  ahead := h.ahead
  booting := hok
  toppingUp := h.toppingUp
  calling := h.calling
  asleep := fun _ => h.asleep hb

/-- A change of the top-up phase alone. -/
theorem Invariant.withTopUp (h : Invariant past b) {topUp : TopUp} (hb : b.boot = .running)
    (hok : TopUpOk b.flash topUp) : Invariant past { b with topUp := topUp } where
  minted := h.minted
  promised := h.promised
  ahead := h.ahead
  booting := h.booting
  toppingUp := hok
  calling := h.calling
  asleep := fun hne => absurd hb hne

/-- A change of one caller's phase alone. -/
theorem Invariant.withCaller (h : Invariant past b) (task : ℕ) {phase : Caller}
    (hb : b.boot = .running)
    (hok : ∀ n, phase = .checked n → n ≠ 0 ∧ n.toNat ≤ highWater b.flash) :
    Invariant past { b with callers := Function.update b.callers task phase } where
  minted := h.minted
  promised := h.promised
  ahead := h.ahead
  booting := h.booting
  toppingUp := h.toppingUp
  calling := by
    intro t n ht
    by_cases htask : t = task
    · subst htask
      exact hok n (by simpa using ht)
    · exact h.calling t n (by simpa [Function.update_of_ne htask] using ht)
  asleep := fun hne => absurd hb hne

/-- Anything past its first phase runs on a booted board. -/
theorem Invariant.running_of_topUp (h : Invariant past b) (ht : b.topUp ≠ .idle) :
    b.boot = .running := by
  by_contra hne
  exact ht (h.asleep hne).2.1

theorem Invariant.running_of_caller (h : Invariant past b) {task : ℕ}
    (ht : b.callers task ≠ .idle) : b.boot = .running := by
  by_contra hne
  exact ht ((h.asleep hne).2.2 task)

/-- The boot's write: what it read is what was there, so nothing returned is above it. -/
theorem Invariant.bootStore (h : Invariant past b) {previous next : UInt64}
    (hb : b.boot = .fetched previous next) (out : WriteOutcome) :
    Invariant past { b with
      flash := (reserveStore b.flash next out).1
      boot := if (reserveStore b.flash next out).2 then .stored previous next else .running } := by
  have hok := h.booting
  rw [hb] at hok
  obtain ⟨hnotMax, hprev, hle⟩ := hok
  have hsleep := h.asleep (by rw [hb]; simp)
  have hgrow := le_highWater_reserveStore (hprev ▸ hle) out
  refine ⟨fun n hn => ?_, h.promised.trans hgrow, h.ahead, ?_, ?_, fun t n ht => ?_,
    fun _ => hsleep⟩
  · exact ⟨(h.minted n hn).1, (h.minted n hn).2.trans hgrow⟩
  · change BootOk _ _ (if _ then _ else _)
    split
    · rename_i hstored
      refine ⟨hnotMax, ?_, fun n hn => hprev ▸ (h.minted n hn).2⟩
      rw [(reserveStore_spec b.flash next out).2 hstored]
      rfl
    · trivial
  · change TopUpOk _ b.topUp
    rw [hsleep.2.1]
    trivial
  · change b.callers t = _ at ht
    rw [hsleep.2.2 t] at ht
    cases ht

/-- The top-up's write. -/
theorem Invariant.topUpStore (h : Invariant past b) {next : UInt64}
    (ht : b.topUp = .fetched next) (out : WriteOutcome) :
    Invariant past { b with
      flash := (reserveStore b.flash next out).1
      topUp := if (reserveStore b.flash next out).2 then .stored next else .idle } := by
  have hle : highWater b.flash ≤ next.toNat := by
    have hok := h.toppingUp
    rwa [ht] at hok
  have hrun : b.boot = .running := h.running_of_topUp (by rw [ht]; simp)
  have hgrow := le_highWater_reserveStore hle out
  refine ⟨fun n hn => ?_, h.promised.trans hgrow, h.ahead, ?_, ?_, fun t n hc => ?_,
    fun hne => absurd hrun hne⟩
  · exact ⟨(h.minted n hn).1, (h.minted n hn).2.trans hgrow⟩
  · change BootOk _ _ b.boot
    rw [hrun]
    trivial
  · change TopUpOk _ (if _ then _ else _)
    split
    · rename_i hstored
      change next.toNat ≤ highWater _
      rw [(reserveStore_spec b.flash next out).2 hstored]
      rfl
    · trivial
  · exact ⟨(h.calling t n hc).1, (h.calling t n hc).2.trans hgrow⟩

/-- Raising the ceiling to what flash already promises. -/
theorem Invariant.raise (h : Invariant past b) {next : UInt64} (ht : b.topUp = .stored next) :
    Invariant past { raiseCeiling b next with topUp := .idle } := by
  have hle : next.toNat ≤ highWater b.flash := by
    have hok := h.toppingUp
    rwa [ht] at hok
  have hrun : b.boot = .running := h.running_of_topUp (by rw [ht]; simp)
  refine ⟨h.minted, ?_, h.ahead, h.booting, trivial, h.calling, fun hne => absurd hrun hne⟩
  change (if b.ceiling ≤ next then next else b.ceiling).toNat ≤ _
  split
  · exact hle
  · exact h.promised

/-- Adopting a reservation: the board resumes above all it ever returned. -/
theorem Invariant.init (h : Invariant past b) {previous next : UInt64}
    (hb : b.boot = .stored previous next) :
    Invariant past { init b previous next with boot := .running } := by
  have hok := h.booting
  rw [hb] at hok
  obtain ⟨hmax, hflash, hle⟩ := hok
  have hsleep := h.asleep (by rw [hb]; simp)
  refine ⟨h.minted, hflash.ge, fun _ n hn => ?_, trivial, ?_, ?_, fun hne => absurd rfl hne⟩
  · change n.toNat < (Saturating.add previous 1).toNat
    rw [toNat_add_one hmax]
    exact Nat.lt_succ_of_le (hle n hn)
  · change TopUpOk b.flash b.topUp
    rw [hsleep.2.1]
    trivial
  · intro t n ht
    change b.callers t = _ at ht
    rw [hsleep.2.2 t] at ht
    cases ht

/-- A successful swap: the value is new, and from now on below what is next. -/
theorem Invariant.swap (h : Invariant past b) {task : ℕ} {n : UInt64}
    (ht : b.callers task = .checked n) (hnext : b.next = n) :
    Invariant (past ++ [(.swap task, some n)])
      { b with next := n + 1, callers := Function.update b.callers task .idle } := by
  obtain ⟨hne, hle⟩ := h.calling task n ht
  have hbusy : b.callers task ≠ .idle := by rw [ht]; simp
  have hrun : b.boot = .running := h.running_of_caller hbusy
  have hidle : Invariant past { b with callers := Function.update b.callers task .idle } :=
    h.withCaller task hrun fun _ hc => by cases hc
  refine ⟨?_, h.promised, ?_, ?_, h.toppingUp, hidle.calling, fun hc => absurd hrun hc⟩
  · intro m hm
    rcases List.mem_append.mp (returned_concat_some past _ n ▸ hm) with hm | hm
    · exact h.minted m hm
    · rw [List.mem_singleton.mp hm]
      exact ⟨hne, hle⟩
  · intro hsucc m hm
    change n + 1 ≠ 0 at hsucc
    have hlt : (n + 1).toNat = n.toNat + 1 := by
      have h1 : (n + 1).toNat = (n.toNat + 1) % 2 ^ 64 := UInt64.toNat_add n 1
      have h2 : (n + 1).toNat ≠ 0 := fun hc => hsucc (UInt64.toNat_inj.mp hc)
      have := n.toNat_lt
      omega
    rw [hlt]
    rcases List.mem_append.mp (returned_concat_some past _ n ▸ hm) with hm | hm
    · have := h.ahead (hnext ▸ hne) m hm
      rw [hnext] at this
      omega
    · rw [List.mem_singleton.mp hm]
      omega
  · change BootOk _ _ b.boot
    rw [hrun]
    trivial

/-- **Flash stays ahead of RAM** through every step, as long as no boot reads a saturated
high-water. -/
theorem Invariant.step (h : Invariant past b) {e : Event} (hsat : ¬ BootsSaturated b e) :
    Invariant (past ++ [(e, (step b e).2)]) (step b e).1 := by
  cases e with
  | powerCut => exact h.powerOn.quiet _
  | bootFetch ok =>
    simp only [Counter.step]
    split
    · rename_i hb
      have hne : b.boot ≠ .running := by simp [hb]
      split
      · rename_i previous next hfetch
        obtain ⟨rfl, hprev, hle, hmax⟩ := reserveFetch_spec hfetch
        refine Invariant.quiet (h.withBoot hne ?_) _
        exact ⟨fun hc => hsat ⟨rfl, hb, hmax hc⟩, hprev, hle⟩
      · refine Invariant.quiet (h.withBoot hne ?_) _
        trivial
    · exact h.quiet _
  | bootStore out =>
    simp only [Counter.step]
    split
    · rename_i previous next hb
      exact (h.bootStore hb out).quiet _
    · exact h.quiet _
  | bootInit =>
    simp only [Counter.step]
    split
    · rename_i previous next hb
      exact (h.init hb).quiet _
    · exact h.quiet _
  | topUpWake =>
    simp only [Counter.step]
    split
    · rename_i hif
      refine Invariant.quiet (h.withTopUp hif.1 ?_) _
      trivial
    · exact h.quiet _
  | topUpFetch ok =>
    simp only [Counter.step]
    split
    · rename_i ht
      have hrun : b.boot = .running := h.running_of_topUp (by rw [ht]; simp)
      split
      · rename_i previous next hfetch
        obtain ⟨-, hprev, hle, -⟩ := reserveFetch_spec hfetch
        refine Invariant.quiet (h.withTopUp hrun ?_) _
        exact hprev.ge.trans hle
      · refine Invariant.quiet (h.withTopUp hrun ?_) _
        trivial
    · exact h.quiet _
  | topUpStore out =>
    simp only [Counter.step]
    split
    · rename_i next ht
      exact (h.topUpStore ht out).quiet _
    · exact h.quiet _
  | topUpRaise =>
    simp only [Counter.step]
    split
    · rename_i next ht
      exact (h.raise ht).quiet _
    · exact h.quiet _
  | load task =>
    simp only [Counter.step]
    split
    · rename_i hif
      exact (h.withCaller task hif.1 fun _ hc => by cases hc).quiet _
    · exact h.quiet _
  | check task =>
    simp only [Counter.step]
    split
    · rename_i n ht
      have hbusy : b.callers task ≠ .idle := by simp [ht]
      have hrun : b.boot = .running := h.running_of_caller hbusy
      refine (h.withCaller task hrun fun m hm => ?_).quiet _
      split at hm
      · cases hm
      · rename_i hif
        obtain rfl := Caller.checked.inj hm
        rw [not_or, UInt64.not_lt, UInt64.le_iff_toNat_le] at hif
        exact ⟨hif.1, hif.2.trans h.promised⟩
    · exact h.quiet _
  | swap task =>
    simp only [Counter.step]
    split
    · rename_i n ht
      have hbusy : b.callers task ≠ .idle := by simp [ht]
      have hrun : b.boot = .running := h.running_of_caller hbusy
      split
      · rename_i hnext
        exact h.swap ht hnext
      · exact (h.withCaller task hrun fun _ hc => by cases hc).quiet _
    · exact h.quiet _

/-! ### The nonce law -/

/-- A step's return value keeps the law: new, not zero, and within what flash promises. -/
def Lawful (past : List (Event × Option UInt64)) (b : Board) (e : Event) : Prop :=
  ∀ n, (step b e).2 = some n →
    n ∉ returned past ∧ n ≠ 0 ∧ ∃ c, b.flash = some c ∧ n ≤ c

/-- The only step that returns a value is a swap that finds what its caller loaded. -/
theorem step_returns {e : Event} {n : UInt64} (h : (step b e).2 = some n) :
    ∃ task, b.callers task = .checked n ∧ b.next = n := by
  cases e with
  | swap task =>
    simp only [Counter.step] at h
    split at h
    · rename_i m ht
      split at h
      · rename_i hnext
        obtain rfl := Option.some.inj h
        exact ⟨task, ht, hnext⟩
      · cases h
    · cases h
  | _ =>
    simp only [Counter.step] at h
    repeat' split at h
    all_goals cases h

theorem Invariant.lawful (h : Invariant past b) (e : Event) : Lawful past b e := by
  intro n hn
  obtain ⟨task, ht, hnext⟩ := step_returns hn
  obtain ⟨hne, hle⟩ := h.calling task n ht
  refine ⟨fun hmem => ?_, hne, ?_⟩
  · have := h.ahead (hnext ▸ hne) n hmem
    rw [hnext] at this
    omega
  · cases hflash : b.flash with
    | none =>
      rw [hflash] at hle
      exact absurd (UInt64.toNat_inj.mp (Nat.le_zero.mp hle)) hne
    | some c =>
      rw [hflash] at hle
      exact ⟨c, rfl, UInt64.le_iff_toNat_le.mpr hle⟩

/-- **No counter twice.** In every run of a board from new, whatever the boots, top-ups, faults,
power cuts and callers, in which no boot reads a saturated high-water: every value `try_next`
returns was never returned before, is not `0`, and is at most the ceiling in flash at that
moment. -/
theorem try_next_never_repeats (events : List Event)
    (h : Run.Always step new (fun _ b e => ¬ BootsSaturated b e) events) :
    Run.Always step new Lawful events :=
  Run.Always.of_invariant invariant_new (fun _ _ _ hinv hsat => hinv.step hsat)
    (fun _ _ e hinv _ => hinv.lawful e) h

/-- A boot that goes well and one call of `try_next`. -/
def bootAndMint : List Event :=
  [.bootFetch true, .bootStore .stored, .bootInit, .load 0, .check 0, .swap 0]

/-- Two boots with a power cut between: the second resumes above the first one's ceiling. -/
theorem try_next_after_power_cut :
    returned (Run.log step new (bootAndMint ++ .powerCut :: bootAndMint)) = [1, 1025] ∧
      Run.Always step new Lawful (bootAndMint ++ .powerCut :: bootAndMint) := by
  refine ⟨by decide, try_next_never_repeats _ ?_⟩
  simp only [bootAndMint, List.cons_append, List.nil_append, Run.always_cons]
  refine ⟨?_, ?_, ?_, ?_, ?_, ?_, ?_, ?_, ?_, ?_, ?_, ?_, ?_, Run.Always.nil⟩ <;> decide

/-! ### A saturated high-water -/

/-- A boot that reserves a block and loses power before using it. -/
def wastedBoot : List Event := [.bootFetch true, .bootStore .stored, .powerCut]

theorem final_wastedBoot (flash : Option UInt64) :
    Run.final step (powerOn flash) wastedBoot
      = powerOn (some (Saturating.add (flash.getD 0) ctrReservation)) := by
  cases flash <;> rfl

/-- Every wasted boot raises the high-water by one block, until it saturates. -/
theorem highWater_wastedBoots (k : ℕ) :
    ∃ flash, Run.final step new (List.replicate k wastedBoot).flatten = powerOn flash ∧
      highWater flash = min (1024 * k) (2 ^ 64 - 1) := by
  induction k with
  | zero => exact ⟨none, rfl, rfl⟩
  | succ k ih =>
    obtain ⟨flash, hfinal, hflash⟩ := ih
    refine ⟨some (Saturating.add (flash.getD 0) ctrReservation), ?_, ?_⟩
    · rw [List.replicate_succ', List.flatten_append, Run.final_append, hfinal,
        List.flatten_singleton]
      exact final_wastedBoot flash
    · have hstep : ctrReservation.toNat = 1024 := rfl
      rw [highWater_some, toNat_add, hstep, ← highWater, hflash]
      omega

/-- `2 ^ 54` blocks in, every boot resumes at the last counter there is. -/
theorem final_wastedBoots_saturated :
    Run.final step new (List.replicate (2 ^ 54) wastedBoot).flatten = powerOn (some maxU64) := by
  obtain ⟨flash, hfinal, hflash⟩ := highWater_wastedBoots (2 ^ 54)
  have hmax : highWater flash = maxU64.toNat := by
    rw [hflash, toNat_maxU64]
    decide
  cases flash with
  | none => cases hmax
  | some c =>
    obtain rfl : c = maxU64 := UInt64.toNat_inj.mp hmax
    exact hfinal

/-- A life long enough to saturate the high-water hands out `u64::MAX` at each of its last two
boots. -/
theorem try_next_repeats_saturated :
    ¬ Run.Always step new Lawful ((List.replicate (2 ^ 54) wastedBoot).flatten ++
        (bootAndMint ++ .powerCut :: bootAndMint)) := by
  intro h
  have hpoint := h ((List.replicate (2 ^ 54) wastedBoot).flatten ++ (bootAndMint ++
    [.powerCut, .bootFetch true, .bootStore .stored, .bootInit, .load 0, .check 0])) (.swap 0) []
    (by rw [List.append_assoc]; rfl)
  rw [Run.final_append, Run.log_append, final_wastedBoots_saturated] at hpoint
  refine (hpoint maxU64 (by decide)).1 ?_
  rw [returned, List.filterMap_append]
  exact List.mem_append_right _ (by decide)

end ApexOS.Brainstem.Counter
