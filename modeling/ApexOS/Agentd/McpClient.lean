import ApexOS.Lib.Json
import ApexOS.Lib.Run
import ApexOS.Lib.Table
import Mathlib.Logic.Function.Basic
import Mathlib.Data.UInt

/-!
# The client of a plugin

`McpClient` of agentd: any number of callers share one pipe to a plugin. A request takes a number,
lists a sender under it, writes its line and waits; the reader hands each line that has a number to
whoever is listed under it. Here the callers are tickets in the order in which they took their
numbers, which wrap around; a caller may be dropped at any time, and what it had listed stays.

The lines are read as JSON or not at all, and what is written and when is not here: a caller's line
goes out or it does not.

## Main definitions

* `Client`, `Client.step`: everything that happens to the client, as one machine
* `reply`: what a caller makes of its line

## Main results

* `answered_own`: a caller is answered by a line with its own number that was read after it was
  listed, and no line answers two
* `pending_iff`: who is listed, exactly
* `not_closed`: a plugin that has gone is told to nobody: who waits then waits until the time is up
-/

namespace ApexOS.Agentd.Mcp

/-- Why a request fails. -/
inductive Failure
  | error (err : Json)
  | writerGone
  | closed
  | timedOut

/-- Where a request is: `leaving` has still to take its sender off the list. -/
inductive Phase
  | absent
  | numbered
  | listed
  | waiting
  | leaving (why : Failure)
  | answered (line : ℕ)
  | failed (why : Failure)
  | dropped

/-- A receiver that has not been dropped, or will still be looked at. -/
def Phase.listens : Phase → Bool
  | .listed | .waiting => true
  | _ => false

/-- A caller: its channel, and how many lines had been read when it was listed. -/
structure Caller where
  phase : Phase
  mail : Option ℕ
  since : Option ℕ

/-- The client, and its callers; `inHand` is a sender that the reader took off the list, with the
line that it is going to send. -/
structure Client where
  begun : ℕ
  callers : ℕ → Caller
  pending : Table UInt64 ℕ
  lines : List Json
  inHand : Option (ℕ × ℕ)
  reading : Bool

/-- `attach_io`. -/
def Client.attach : Client := ⟨0, fun _ => ⟨.absent, none, none⟩, .empty, [], none, true⟩

/-- `next_id.fetch_add(1)`, which begins at 1. -/
def number (k : ℕ) : UInt64 := UInt64.ofNat (k + 1)

/-- The number of a line. -/
def lineNumber (msg : Json) : Option UInt64 := (msg.get? "id").bind Json.asU64

/-- What a caller makes of its line. -/
def reply (msg : Json) : Except Failure Json :=
  match msg.get? "error" with
  | some err => .error (.error err)
  | none => .ok ((msg.get? "result").getD .null)

/-- Something that happens. -/
inductive Input
  | begin
  | list (k : ℕ)
  | send (k : ℕ) (ok : Bool)
  | read (msg : Option Json)
  | deliver
  | wake (k : ℕ)
  | expire (k : ℕ)
  | unlist (k : ℕ)
  | drop (k : ℕ)
  | eof

namespace Client

def setCaller (c : Client) (k : ℕ) (x : Caller) : Client :=
  { c with callers := Function.update c.callers k x }

/-- Whether a caller's sender is still somewhere. -/
def senderLives (c : Client) (k : ℕ) : Bool :=
  c.pending.get? (number k) = some k || c.inHand.map Prod.fst = some k

/-- One thing that happens, and what a caller gets if its request ends. What cannot happen changes
nothing. -/
def step (c : Client) : Input → Client × Option (ℕ × Except Failure Json)
  | .begin => ({ c.setCaller c.begun ⟨.numbered, none, none⟩ with begun := c.begun + 1 }, none)
  | .list k =>
    match (c.callers k).phase with
    | .numbered =>
      ({ c.setCaller k ⟨.listed, none, some c.lines.length⟩ with
          pending := c.pending.insert (number k) k }, none)
    | _ => (c, none)
  | .send k ok =>
    match (c.callers k).phase with
    | .listed =>
      (c.setCaller k { c.callers k with
          phase := if ok then .waiting else .leaving .writerGone }, none)
    | _ => (c, none)
  | .read none => (c, none)
  | .read (some msg) =>
    if c.reading && c.inHand.isNone then
      let c' := { c with lines := c.lines ++ [msg] }
      match lineNumber msg with
      | none => (c', none)
      | some id =>
        match c.pending.get? id with
        | none => (c', none)
        | some k =>
          ({ c' with pending := c.pending.erase id, inHand := some (k, c.lines.length) }, none)
    else (c, none)
  | .deliver =>
    match c.inHand with
    | none => (c, none)
    | some (k, line) =>
      let c' := { c with inHand := none }
      if (c.callers k).phase.listens then
        (c'.setCaller k { c.callers k with mail := some line }, none)
      else (c', none)
  | .wake k =>
    match (c.callers k).phase with
    | .waiting =>
      match (c.callers k).mail with
      | some line =>
        (c.setCaller k { c.callers k with phase := .answered line },
          some (k, match c.lines[line]? with
            | some msg => reply msg
            | none => .error .closed))
      | none =>
        if c.senderLives k then (c, none)
        else (c.setCaller k { c.callers k with phase := .failed .closed },
          some (k, .error .closed))
    | _ => (c, none)
  | .expire k =>
    match (c.callers k).phase, (c.callers k).mail with
    | .waiting, none =>
      if c.senderLives k then
        (c.setCaller k { c.callers k with phase := .leaving .timedOut }, none)
      else (c, none)
    | _, _ => (c, none)
  | .unlist k =>
    match (c.callers k).phase with
    | .leaving why =>
      ({ c.setCaller k { c.callers k with phase := .failed why } with
          pending := c.pending.erase (number k) }, some (k, .error why))
    | _ => (c, none)
  | .drop k =>
    match (c.callers k).phase with
    | .absent | .answered _ | .failed _ => (c, none)
    | _ => (c.setCaller k { c.callers k with phase := .dropped }, none)
  | .eof => (if c.inHand.isNone then { c with reading := false } else c, none)

end Client

/-! ### What holds in every run -/

/-- A line that was read with a caller's number, after the caller was listed. -/
def Owns (lines : List Json) (since : Option ℕ) (k n : ℕ) : Prop :=
  (∃ msg, lines[n]? = some msg ∧ lineNumber msg = some (number k)) ∧ ∃ s, since = some s ∧ s ≤ n

theorem Owns.concat {lines : List Json} {since : Option ℕ} {k n : ℕ} (h : Owns lines since k n)
    (msg : Json) : Owns (lines ++ [msg]) since k n := by
  obtain ⟨⟨m, hm, hnumber⟩, hs⟩ := h
  refine ⟨⟨m, ?_, hnumber⟩, hs⟩
  rw [List.getElem?_append_left (List.getElem?_eq_some_iff.mp hm).1, hm]

theorem owns_last {lines : List Json} {since : Option ℕ} {k s : ℕ} {msg : Json}
    (hs : since = some s) (hle : s ≤ lines.length) (h : lineNumber msg = some (number k)) :
    Owns (lines ++ [msg]) since k lines.length :=
  ⟨⟨msg, List.getElem?_concat_length, h⟩, s, hs, hle⟩

theorem Owns.lt {lines : List Json} {since : Option ℕ} {k n : ℕ} (h : Owns lines since k n) :
    n < lines.length := by
  obtain ⟨⟨m, hm, -⟩, -⟩ := h
  exact (List.getElem?_eq_some_iff.mp hm).1

/-- A request that is over. -/
def Phase.isOver : Phase → Bool
  | .answered _ | .failed _ => true
  | _ => false

/-- What holds between the callers, the list and the lines. -/
structure Sound (c : Client) : Prop where
  fresh : ∀ k, c.begun ≤ k → c.callers k = ⟨.absent, none, none⟩
  unlisted : ∀ k, (c.callers k).phase = .numbered → (c.callers k).since = none
  since_le : ∀ k s, (c.callers k).since = some s → s ≤ c.lines.length
  pending : ∀ id k, c.pending.get? id = some k → id = number k ∧ (c.callers k).since.isSome ∧
    (c.callers k).mail = none ∧ (∀ n, c.inHand ≠ some (k, n)) ∧ (c.callers k).phase.isOver = false
  inHand : ∀ k n, c.inHand = some (k, n) → Owns c.lines (c.callers k).since k n ∧
    (c.callers k).mail = none ∧ ∀ k', (c.callers k').mail ≠ some n
  mail : ∀ k n, (c.callers k).mail = some n → Owns c.lines (c.callers k).since k n ∧
    ∀ k', (c.callers k').mail = some n → k' = k
  answered : ∀ k n, (c.callers k).phase = .answered n → (c.callers k).mail = some n

theorem sound_attach : Sound .attach where
  fresh _ _ := rfl
  unlisted _ h := by cases h
  since_le _ _ h := by cases h
  pending _ _ h := by cases h
  inHand _ _ h := by cases h
  mail _ _ h := by cases h
  answered _ _ h := by cases h

variable {c : Client}

/-- A caller that only gets on with its request. -/
theorem Sound.setPhase (h : Sound c) {k : ℕ} {phase : Phase} (hbegun : k < c.begun)
    (hnumbered : phase = .numbered → (c.callers k).since = none)
    (hover : phase.isOver = true → ∀ id, c.pending.get? id ≠ some k)
    (hanswered : ∀ n, phase = .answered n → (c.callers k).mail = some n) :
    Sound (c.setCaller k { c.callers k with phase }) := by
  obtain ⟨fresh, unlisted, since_le, pending, inHand, mail, answered⟩ := h
  have hsince : ∀ k', ((c.setCaller k { c.callers k with phase }).callers k').since =
      (c.callers k').since := by
    intro k'
    rcases eq_or_ne k' k with rfl | hne <;> simp [Client.setCaller, *]
  have hmail : ∀ k', ((c.setCaller k { c.callers k with phase }).callers k').mail =
      (c.callers k').mail := by
    intro k'
    rcases eq_or_ne k' k with rfl | hne <;> simp [Client.setCaller, *]
  have hphase : ∀ k', ((c.setCaller k { c.callers k with phase }).callers k').phase =
      if k' = k then phase else (c.callers k').phase := by
    intro k'
    rcases eq_or_ne k' k with rfl | hne <;> simp [Client.setCaller, *]
  constructor
  · intro k' hk'
    have hne : k' ≠ k := (hbegun.trans_le hk').ne'
    simp [Client.setCaller, hne, fresh k' hk']
  · intro k' hk'
    rw [hphase] at hk'
    rw [hsince]
    split at hk'
    · rename_i heq
      exact heq ▸ hnumbered hk'
    · exact unlisted k' hk'
  · intro k' s hs
    exact since_le k' s (hsince k' ▸ hs)
  · intro id k' hk'
    obtain ⟨hid, hs, hm, hhand, hphase'⟩ := pending id k' hk'
    refine ⟨hid, hsince k' ▸ hs, hmail k' ▸ hm, hhand, ?_⟩
    rw [hphase]
    split
    · rename_i heq
      exact Bool.eq_false_iff.mpr fun ho => hover ho id (heq ▸ hk')
    · exact hphase'
  · intro k' n hn
    obtain ⟨hown, hm, hfree⟩ := inHand k' n hn
    rw [hsince, hmail]
    exact ⟨hown, hm, fun k'' => by rw [hmail]; exact hfree k''⟩
  · intro k' n hn
    rw [hmail] at hn
    obtain ⟨hown, hsame⟩ := mail k' n hn
    rw [hsince]
    exact ⟨hown, fun k'' => by rw [hmail]; exact hsame k''⟩
  · intro k' n hn
    rw [hphase] at hn
    rw [hmail]
    split at hn
    · rename_i heq
      exact heq ▸ hanswered n hn
    · exact answered k' n hn

/-- A sender taken off the list. -/
theorem Sound.erase (h : Sound c) (id : UInt64) :
    Sound { c with pending := c.pending.erase id } := by
  refine { h with pending := fun id' k hk => ?_ }
  simp only [Table.get?_erase] at hk
  split at hk
  · cases hk
  · exact h.pending id' k hk

/-- Another line read. -/
theorem Sound.read (h : Sound c) (msg : Json) : Sound { c with lines := c.lines ++ [msg] } := by
  refine { h with since_le := ?_, inHand := ?_, mail := ?_ }
  · intro k s hs
    rw [List.length_append]
    exact (h.since_le k s hs).trans (Nat.le_add_right _ _)
  · intro k n hn
    obtain ⟨hown, hrest⟩ := h.inHand k n hn
    exact ⟨hown.concat msg, hrest⟩
  · intro k n hn
    obtain ⟨hown, hsame⟩ := h.mail k n hn
    exact ⟨hown.concat msg, hsame⟩

/-- The reader takes a sender off the list, to send it the line it has just read. -/
theorem Sound.take (h : Sound c) {msg : Json} {id : UInt64} {k : ℕ}
    (hnumber : lineNumber msg = some id) (hk : c.pending.get? id = some k) :
    Sound { c with
      lines := c.lines ++ [msg]
      pending := c.pending.erase id
      inHand := some (k, c.lines.length) } := by
  obtain ⟨rfl, hsince, hmail, -, -⟩ := h.pending id k hk
  obtain ⟨s, hs⟩ := Option.isSome_iff_exists.mp hsince
  refine { (h.read msg).erase (number k) with pending := ?_, inHand := ?_ }
  · intro id' k' hk'
    obtain ⟨hid', hrest⟩ := ((h.read msg).erase (number k)).pending id' k' hk'
    refine ⟨hid', hrest.1, hrest.2.1, fun n hn => ?_, hrest.2.2.2⟩
    obtain ⟨rfl, -⟩ := Prod.mk.inj (Option.some.inj hn)
    simp only [Table.get?_erase, hid', if_pos] at hk'
    cases hk'
  · intro k' n hn
    obtain ⟨rfl, rfl⟩ := Prod.mk.inj (Option.some.inj hn)
    refine ⟨owns_last hs (h.since_le k s hs) hnumber, hmail, fun k' hk' => ?_⟩
    exact absurd (h.mail k' _ hk').1.lt (lt_irrefl _)

/-- The reader sends. -/
theorem Sound.deliver (h : Sound c) {k n : ℕ} (hhand : c.inHand = some (k, n)) :
    Sound ({ c with inHand := none }.setCaller k { c.callers k with mail := some n }) := by
  obtain ⟨hown, hmail, hfree⟩ := h.inHand k n hhand
  obtain ⟨fresh, unlisted, since_le, pending, -, mail, answered⟩ := h
  simp only [Client.setCaller]
  constructor <;> grind [Function.update_apply, Owns]

theorem Sound.begin (h : Sound c) :
    Sound { c.setCaller c.begun ⟨.numbered, none, none⟩ with begun := c.begun + 1 } := by
  obtain ⟨fresh, unlisted, since_le, pending, inHand, mail, answered⟩ := h
  simp only [Client.setCaller]
  constructor <;> grind [Owns, Function.update_apply, Phase.isOver]

theorem Sound.list (h : Sound c) {k : ℕ} (hk : (c.callers k).phase = .numbered) :
    Sound { c.setCaller k ⟨.listed, none, some c.lines.length⟩ with
      pending := c.pending.insert (number k) k } := by
  obtain ⟨fresh, unlisted, since_le, pending, inHand, mail, answered⟩ := h
  simp only [Client.setCaller]
  constructor <;> grind [Owns, Function.update_apply, Table.get?_insert, Phase.isOver]

theorem Sound.lt_begun (h : Sound c) {k : ℕ} (hk : (c.callers k).phase ≠ .absent) :
    k < c.begun := by
  by_contra hle
  exact hk (by rw [h.fresh k (not_lt.mp hle)])

/-- A caller that has a line, or whose sender is gone, is listed nowhere. -/
theorem Sound.not_pending_of_mail (h : Sound c) {k n : ℕ} (hk : (c.callers k).mail = some n)
    (id : UInt64) : c.pending.get? id ≠ some k := by
  intro hid
  cases hk.symm.trans (h.pending id k hid).2.2.1

theorem Sound.not_pending_of_gone (h : Sound c) {k : ℕ} (hk : ¬ c.senderLives k = true)
    (id : UInt64) : c.pending.get? id ≠ some k := by
  intro hid
  obtain rfl := (h.pending id k hid).1
  exact hk (by rw [Client.senderLives, hid]; simp)

/-- **One step keeps it.** -/
theorem sound_step (h : Sound c) (i : Input) : Sound (c.step i).1 := by
  cases i with
  | begin => exact h.begin
  | list k =>
    simp only [Client.step]
    split
    · rename_i hk
      exact h.list hk
    · exact h
  | send k ok =>
    simp only [Client.step]
    split
    · rename_i hk
      have hbegun : k < c.begun := h.lt_begun (by rw [hk]; rintro ⟨⟩)
      cases ok <;> exact h.setPhase hbegun (by rintro ⟨⟩) (by rintro ⟨⟩) (by rintro _ ⟨⟩)
    · exact h
  | read msg =>
    cases msg with
    | none => exact h
    | some msg =>
      simp only [Client.step]
      split
      · split
        · exact h.read msg
        · rename_i hnumber
          split
          · exact h.read msg
          · rename_i hk
            exact h.take hnumber hk
      · exact h
  | deliver =>
    simp only [Client.step]
    split
    · exact h
    · rename_i k n hhand
      split
      · exact h.deliver hhand
      · refine { h with pending := fun id k hk => ?_, inHand := fun _ _ hn => by cases hn }
        obtain ⟨hid, hs, hm, -, ho⟩ := h.pending id k hk
        exact ⟨hid, hs, hm, fun _ hn => (by cases hn), ho⟩
  | wake k =>
    simp only [Client.step]
    split
    · rename_i hk
      have hbegun : k < c.begun := h.lt_begun (by rw [hk]; rintro ⟨⟩)
      split
      · rename_i n hmail
        refine h.setPhase hbegun (by rintro ⟨⟩) (fun _ => h.not_pending_of_mail hmail) ?_
        rintro m ⟨⟩
        exact hmail
      · split
        · exact h
        · rename_i hgone
          exact h.setPhase hbegun (by rintro ⟨⟩) (fun _ => h.not_pending_of_gone hgone)
            (by rintro _ ⟨⟩)
    · exact h
  | expire k =>
    simp only [Client.step]
    split
    · rename_i hk _
      split
      · exact h.setPhase (h.lt_begun (by rw [hk]; rintro ⟨⟩)) (by rintro ⟨⟩) (by rintro ⟨⟩)
          (by rintro _ ⟨⟩)
      · exact h
    · exact h
  | unlist k =>
    simp only [Client.step]
    split
    · rename_i why hk
      refine (h.erase (number k)).setPhase (h.lt_begun (by rw [hk]; rintro ⟨⟩)) (by rintro ⟨⟩) ?_
        (by rintro _ ⟨⟩)
      intro _ id hid
      obtain rfl := ((h.erase (number k)).pending id k hid).1
      simp only [Table.get?_erase, if_pos] at hid
      cases hid
    · exact h
  | drop k =>
    simp only [Client.step]
    split
    · exact h
    · exact h
    · exact h
    · rename_i habsent _ _
      exact h.setPhase (h.lt_begun habsent) (by rintro ⟨⟩) (by rintro ⟨⟩) (by rintro _ ⟨⟩)
  | eof =>
    simp only [Client.step]
    split
    · exact { h with }
    · exact h

theorem sound_final (es : List Input) : Sound (Run.final Client.step .attach es) := by
  refine Run.invariant (I := fun _ c => Sound c) sound_attach ?_ (Run.Always.true es)
  exact fun _ _ i h _ => sound_step h i

/-! ### What the callers get -/

theorem setCaller_phase (c : Client) (k k' : ℕ) (x : Caller) :
    ((c.setCaller k x).callers k').phase = if k' = k then x.phase else (c.callers k').phase := by
  rcases eq_or_ne k' k with rfl | hne <;> simp [Client.setCaller, *]

/-- What is over stays as it is. -/
theorem step_over (h : Sound c) {k : ℕ} (hk : (c.callers k).phase.isOver = true) (i : Input) :
    ((c.step i).1.callers k).phase = (c.callers k).phase := by
  have hset : ∀ k' x, (c.callers k').phase.isOver = false →
      ((c.setCaller k' x).callers k).phase = (c.callers k).phase := by
    intro k' x hk'
    rw [setCaller_phase, if_neg]
    rintro rfl
    cases hk.symm.trans hk'
  have hbegun : (c.callers c.begun).phase.isOver = false := by rw [h.fresh _ le_rfl]; rfl
  cases i with
  | begin => exact hset _ _ hbegun
  | read msg => cases msg <;> grind [Client.step]
  | eof => grind [Client.step]
  | deliver =>
    simp only [Client.step]
    split
    · rfl
    · split
      · rw [setCaller_phase]
        split
        · rename_i heq
          rw [heq]
        · rfl
      · rfl
  | _ => grind [Client.step, Phase.isOver, Client.setCaller]

theorem step_lines (c : Client) (i : Input) : c.lines <+: (c.step i).1.lines := by
  cases i with
  | read msg =>
    cases msg with
    | none => exact List.prefix_rfl
    | some msg =>
      simp only [Client.step]
      split
      · split
        · exact List.prefix_append _ _
        · split <;> exact List.prefix_append _ _
      · exact List.prefix_rfl
  | _ => grind [Client.step, Client.setCaller]

/-- What a request ended with, by its phase. -/
def Ended (c : Client) (k : ℕ) (r : Except Failure Json) : Prop :=
  (∃ n msg, (c.callers k).phase = .answered n ∧ c.lines[n]? = some msg ∧ r = reply msg) ∨
    ∃ why, (c.callers k).phase = .failed why ∧ r = .error why

theorem step_told (h : Sound c) {i : Input} {k : ℕ} {r : Except Failure Json}
    (ht : (c.step i).2 = some (k, r)) :
    (c.callers k).phase.isOver = false ∧ Ended (c.step i).1 k r := by
  cases i with
  | wake k' =>
    simp only [Client.step] at ht ⊢
    split at ht
    · rename_i hk
      split at ht
      · rename_i n hmail
        obtain ⟨rfl, rfl⟩ := Prod.mk.inj (Option.some.inj ht)
        obtain ⟨⟨msg, hmsg, -⟩, -⟩ := (h.mail _ n hmail).1
        simp only [hk, hmail, hmsg]
        refine ⟨rfl, .inl ⟨n, msg, ?_, hmsg, rfl⟩⟩
        rw [setCaller_phase, if_pos rfl]
      · rename_i hmail
        split at ht
        · cases ht
        · rename_i hgone
          obtain ⟨rfl, rfl⟩ := Prod.mk.inj (Option.some.inj ht)
          simp only [hk, hmail, if_neg hgone]
          refine ⟨rfl, .inr ⟨.closed, ?_, rfl⟩⟩
          rw [setCaller_phase, if_pos rfl]
    · cases ht
  | unlist k' =>
    simp only [Client.step] at ht ⊢
    split at ht
    · rename_i why hk
      obtain ⟨rfl, rfl⟩ := Prod.mk.inj (Option.some.inj ht)
      simp only [hk]
      refine ⟨rfl, .inr ⟨why, ?_, rfl⟩⟩
      exact (setCaller_phase c k' k' _).trans (if_pos rfl)
    · cases ht
  | read msg => cases msg <;> grind [Client.step]
  | _ => grind [Client.step]

theorem Ended.step {k : ℕ} {r : Except Failure Json} (h : Sound c) (hended : Ended c k r)
    (i : Input) : Ended (c.step i).1 k r := by
  obtain ⟨n, msg, hphase, hmsg, rfl⟩ | ⟨why, hphase, rfl⟩ := hended
  · refine .inl ⟨n, msg, ?_, ?_, rfl⟩
    · rw [step_over h (by rw [hphase]; rfl), hphase]
    · obtain ⟨after, hafter⟩ := step_lines c i
      rw [← hafter, List.getElem?_append_left (List.getElem?_eq_some_iff.mp hmsg).1, hmsg]
  · refine .inr ⟨why, ?_, rfl⟩
    rw [step_over h (by rw [hphase]; rfl), hphase]

/-- The requests that have ended, with what the callers got. -/
def told (past : List (Input × Option (ℕ × Except Failure Json))) :
    List (ℕ × Except Failure Json) := past.filterMap Prod.snd

theorem told_concat (past : List (Input × Option (ℕ × Except Failure Json))) (i : Input)
    (out : Option (ℕ × Except Failure Json)) :
    told (past ++ [(i, out)]) = told past ++ out.toList := by
  rw [told, List.filterMap_append]
  cases out <;> rfl

theorem told_final (es : List Input) :
    ((told (Run.log Client.step .attach es)).map Prod.fst).Nodup ∧
      ∀ k r, (k, r) ∈ told (Run.log Client.step .attach es) →
        Ended (Run.final Client.step .attach es) k r := by
  refine (Run.invariant (I := fun past c => Sound c ∧ ((told past).map Prod.fst).Nodup ∧
      ∀ k r, (k, r) ∈ told past → Ended c k r)
    ⟨sound_attach, List.nodup_nil, fun _ _ h => absurd h List.not_mem_nil⟩ ?_
    (Run.Always.true es)).2
  rintro past c i ⟨hsound, hnodup, hended⟩ -
  refine ⟨sound_step hsound i, ?_⟩
  rw [told_concat]
  cases hout : (c.step i).2 with
  | none =>
    rw [Option.toList_none, List.append_nil]
    exact ⟨hnodup, fun k r hkr => (hended k r hkr).step hsound i⟩
  | some x =>
    obtain ⟨k, r⟩ := x
    obtain ⟨hnot, hnew⟩ := step_told hsound hout
    rw [Option.toList_some]
    constructor
    · rw [List.map_append, List.nodup_append]
      refine ⟨hnodup, List.nodup_singleton _, fun k' hk' k'' hk'' => ?_⟩
      rw [List.map_singleton, List.mem_singleton] at hk''
      subst hk''
      rintro rfl
      -- a request that has ended is over, and this one was not
      obtain ⟨⟨_, r'⟩, hmem, rfl⟩ := List.mem_map.mp hk'
      obtain ⟨n, msg, hphase, -, -⟩ | ⟨why, hphase, -⟩ := hended _ r' hmem <;>
        rw [hphase] at hnot <;> cases hnot
    · intro k' r' hmem
      obtain hmem | hmem := List.mem_append.mp hmem
      · exact (hended k' r' hmem).step hsound i
      · obtain ⟨rfl, rfl⟩ := Prod.mk.inj (List.mem_singleton.mp hmem)
        exact hnew

/-- **Every caller gets what is its own, once**: no request ends twice, and what ends it is a line
with its own number that was read after it was listed, or a failure; no line ends two. -/
theorem answered_own (es : List Input) :
    ((told (Run.log Client.step .attach es)).map Prod.fst).Nodup ∧
      (∀ k r, (k, r) ∈ told (Run.log Client.step .attach es) →
        Ended (Run.final Client.step .attach es) k r) ∧
      ∀ k n, ((Run.final Client.step .attach es).callers k).phase = .answered n →
        Owns (Run.final Client.step .attach es).lines
          ((Run.final Client.step .attach es).callers k).since k n ∧
        ∀ k', ((Run.final Client.step .attach es).callers k').phase = .answered n → k' = k := by
  obtain ⟨hnodup, hended⟩ := told_final es
  have hsound := sound_final es
  refine ⟨hnodup, hended, fun k n hn => ?_⟩
  obtain ⟨hown, hsame⟩ := hsound.mail k n (hsound.answered k n hn)
  exact ⟨hown, fun k' hk' => hsame k' (hsound.answered k' n hk')⟩

/-! ### Who is listed -/

theorem number_inj {k k' : ℕ} (hk : k < 2 ^ 64) (hk' : k' < 2 ^ 64) (h : number k = number k') :
    k = k' := by
  have hnat := congrArg UInt64.toNat h
  rw [number, number, UInt64.toNat_ofNat', UInt64.toNat_ofNat'] at hnat
  omega

/-- Who is listed, and that no sender is lost. -/
structure Exact (c : Client) : Prop where
  pending : ∀ k s, (c.callers k).since = some s → (c.pending.get? (number k) = some k ↔
    (∀ why, (c.callers k).phase ≠ .failed why) ∧
      ∀ msg ∈ c.lines.drop s, lineNumber msg ≠ some (number k))
  lives : ∀ k, (c.callers k).phase.listens = true → (c.callers k).mail = none →
    c.senderLives k = true
  open' : ∀ k, (c.callers k).phase ≠ .leaving .closed ∧ (c.callers k).phase ≠ .failed .closed

theorem exact_attach : Exact .attach where
  pending _ _ h := by cases h
  lives _ h := by cases h
  open' _ := ⟨by rintro ⟨⟩, by rintro ⟨⟩⟩

/-- A caller that only gets on with its request, and keeps its sender while it listens. -/
theorem Exact.setPhase (he : Exact c) {k : ℕ} {phase : Phase}
    (hover : (c.callers k).phase.isOver = false) (hfailed : ∀ why, phase ≠ .failed why)
    (hlistens : phase.listens = true → (c.callers k).phase.listens = true)
    (hclosed : phase ≠ .leaving .closed) :
    Exact (c.setCaller k { c.callers k with phase }) := by
  obtain ⟨pending, lives, open'⟩ := he
  have hnot : ∀ why, (c.callers k).phase ≠ .failed why := by
    intro why hwhy
    rw [hwhy] at hover
    cases hover
  simp only [Client.setCaller]
  constructor <;> grind [Function.update_apply, Client.senderLives]

theorem Sound.number_ne (h : Sound c) (hbegun : c.begun ≤ 2 ^ 64) {k k' : ℕ} (hne : k' ≠ k)
    (hk : (c.callers k).phase ≠ .absent)
    (hk' : (c.callers k').phase ≠ .absent ∨ (c.callers k').since.isSome) :
    number k' ≠ number k := by
  intro heq
  have hlt := h.lt_begun hk
  have hlt' : k' < c.begun := by
    by_contra hle
    rw [h.fresh k' (not_lt.mp hle)] at hk'
    obtain hk' | hk' := hk'
    · exact hk' rfl
    · cases hk'
  exact hne (number_inj (by omega) (by omega) heq)

theorem Phase.ne_absent_of_listens {phase : Phase} (h : phase.listens = true) :
    phase ≠ .absent := by
  rintro rfl
  cases h

theorem Exact.list (h : Sound c) (he : Exact c) (hbegun : c.begun ≤ 2 ^ 64) {k : ℕ}
    (hk : (c.callers k).phase = .numbered) :
    Exact { c.setCaller k ⟨.listed, none, some c.lines.length⟩ with
      pending := c.pending.insert (number k) k } := by
  have hnumber : ∀ k', k' ≠ k → (c.callers k').phase ≠ .absent ∨ (c.callers k').since.isSome →
      number k' ≠ number k :=
    fun k' hne => h.number_ne hbegun hne (by rw [hk]; rintro ⟨⟩)
  obtain ⟨pending, lives, open'⟩ := he
  simp only [Client.setCaller]
  constructor
  · intro k' s hs
    rcases eq_or_ne k' k with rfl | hne
    · simp only [Function.update_self] at hs ⊢
      obtain rfl := Option.some.inj hs
      simp [Table.get?_insert]
    · simp only [Function.update_of_ne hne] at hs ⊢
      rw [Table.get?_insert, if_neg (hnumber k' hne (.inr (by rw [hs]; rfl)))]
      exact pending k' s hs
  · intro k' hl hm
    rcases eq_or_ne k' k with rfl | hne
    · simp [Client.senderLives, Table.get?_insert]
    · simp only [Function.update_of_ne hne] at hl hm
      have hl' := lives k' hl hm
      have hne' := hnumber k' hne (.inl (Phase.ne_absent_of_listens hl))
      simpa [Client.senderLives, Table.get?_insert, hne'] using hl'
  · intro k'
    rcases eq_or_ne k' k with rfl | hne
    · simp
    · simpa only [Function.update_of_ne hne] using open' k'

theorem drop_concat_since (h : Sound c) {k s : ℕ} (hs : (c.callers k).since = some s) (msg : Json) :
    (c.lines ++ [msg]).drop s = c.lines.drop s ++ [msg] :=
  List.drop_append_of_le_length (h.since_le k s hs)

/-- A line that nobody listed has the number of. -/
theorem Exact.read (h : Sound c) (he : Exact c) {msg : Json}
    (hmsg : ∀ id, lineNumber msg = some id → c.pending.get? id = none) :
    Exact { c with lines := c.lines ++ [msg] } := by
  refine { he with pending := fun k s hs => ?_ }
  change _ ↔ _ ∧ ∀ m ∈ (c.lines ++ [msg]).drop s, _
  rw [drop_concat_since h hs, he.pending k s hs]
  simp only [List.mem_append, List.mem_singleton]
  constructor
  · rintro ⟨hphase, hlines⟩
    refine ⟨hphase, ?_⟩
    rintro m (hm | rfl)
    · exact hlines m hm
    · intro hnumber
      have hlisted := (he.pending k s hs).mpr ⟨hphase, hlines⟩
      cases hlisted.symm.trans (hmsg _ hnumber)
  · rintro ⟨hphase, hlines⟩
    exact ⟨hphase, fun m hm => hlines m (.inl hm)⟩

theorem Exact.take (h : Sound c) (he : Exact c) (hnone : c.inHand = none) {msg : Json}
    {id : UInt64} {k : ℕ} (hnumber : lineNumber msg = some id) (hk : c.pending.get? id = some k) :
    Exact { c with
      lines := c.lines ++ [msg]
      pending := c.pending.erase id
      inHand := some (k, c.lines.length) } := by
  obtain ⟨hid, -⟩ := h.pending id k hk
  refine { he with pending := fun k' s hs => ?_, lives := fun k' hl hm => ?_ }
  · change (c.pending.erase id).get? _ = _ ↔ _ ∧ ∀ m ∈ (c.lines ++ [msg]).drop s, _
    rw [drop_concat_since h hs, Table.get?_erase]
    simp only [List.mem_append, List.mem_singleton]
    by_cases hid' : number k' = id
    · rw [if_pos hid']
      refine iff_of_false (by rintro ⟨⟩) ?_
      rintro ⟨-, hlines⟩
      exact hlines msg (.inr rfl) (by rw [hnumber, hid'])
    · rw [if_neg hid', he.pending k' s hs]
      refine and_congr_right fun _ => ⟨?_, fun hlines m hm => hlines m (.inl hm)⟩
      rintro hlines m (hm | rfl)
      · exact hlines m hm
      · rw [hnumber]
        exact fun heq => hid' (Option.some.inj heq).symm
  · have hl' := he.lives k' hl hm
    simp only [Client.senderLives, hnone, Option.map_none, reduceCtorEq, decide_false,
      Bool.or_false, decide_eq_true_eq] at hl'
    by_cases hid' : number k' = id
    · have hkk : k = k' := by
        rw [hid', hk] at hl'
        exact Option.some.inj hl'
      simp [Client.senderLives, hkk]
    · simp [Client.senderLives, Table.get?_erase, hid', hl']

theorem Exact.deliver (he : Exact c) {k n : ℕ} (hhand : c.inHand = some (k, n)) :
    Exact ({ c with inHand := none }.setCaller k { c.callers k with mail := some n }) := by
  obtain ⟨pending, lives, open'⟩ := he
  simp only [Client.setCaller]
  constructor <;> grind [Function.update_apply, Client.senderLives]

theorem Exact.unlist (h : Sound c) (he : Exact c) (hbegun : c.begun ≤ 2 ^ 64) {k : ℕ}
    {why : Failure} (hk : (c.callers k).phase = .leaving why) :
    Exact { c.setCaller k { c.callers k with phase := .failed why } with
      pending := c.pending.erase (number k) } := by
  have hnumber : ∀ k', k' ≠ k → (c.callers k').phase ≠ .absent ∨ (c.callers k').since.isSome →
      number k' ≠ number k :=
    fun k' hne => h.number_ne hbegun hne (by rw [hk]; rintro ⟨⟩)
  obtain ⟨pending, lives, open'⟩ := he
  simp only [Client.setCaller]
  constructor
  · intro k' s hs
    rcases eq_or_ne k' k with rfl | hne
    · simp [Table.get?_erase]
    · simp only [Function.update_of_ne hne] at hs ⊢
      rw [Table.get?_erase, if_neg (hnumber k' hne (.inr (by rw [hs]; rfl)))]
      exact pending k' s hs
  · intro k' hl hm
    rcases eq_or_ne k' k with rfl | hne
    · simp only [Function.update_self] at hl
      cases hl
    · simp only [Function.update_of_ne hne] at hl hm
      have hl' := lives k' hl hm
      have hne' := hnumber k' hne (.inl (Phase.ne_absent_of_listens hl))
      simpa [Client.senderLives, Table.get?_erase, hne'] using hl'
  · intro k'
    rcases eq_or_ne k' k with rfl | hne
    · have hwhy : why ≠ .closed := by
        rintro rfl
        exact (open' k').1 hk
      simpa using hwhy
    · simpa only [Function.update_of_ne hne] using open' k'

theorem Exact.step (h : Sound c) (he : Exact c) (hbegun : c.begun ≤ 2 ^ 64) (i : Input) :
    Exact (c.step i).1 := by
  cases i with
  | begin =>
    obtain ⟨fresh, -⟩ := h
    obtain ⟨pending, lives, open'⟩ := he
    simp only [Client.step, Client.setCaller]
    constructor <;> grind [Function.update_apply, Client.senderLives, Phase.listens]
  | list k =>
    simp only [Client.step]
    split
    · rename_i hk
      exact he.list h hbegun hk
    · exact he
  | send k ok =>
    simp only [Client.step]
    split
    · rename_i hk
      cases ok <;> exact he.setPhase (by rw [hk]; rfl) (by rintro _ ⟨⟩)
        (by rw [hk]; exact fun _ => rfl) (by rintro ⟨⟩)
    · exact he
  | read msg =>
    cases msg with
    | none => exact he
    | some msg =>
      simp only [Client.step]
      split
      · rename_i hreading
        have hnone : c.inHand = none := by
          rw [Bool.and_eq_true, Option.isNone_iff_eq_none] at hreading
          exact hreading.2
        split
        · rename_i hnumber
          exact he.read h fun id hid => by cases hnumber.symm.trans hid
        · rename_i id hnumber
          split
          · rename_i hk
            exact he.read h fun id' hid => by cases hnumber.symm.trans hid; exact hk
          · rename_i hk
            exact he.take h hnone hnumber hk
      · exact he
  | deliver =>
    simp only [Client.step]
    split
    · exact he
    · rename_i k n hhand
      split
      · exact he.deliver hhand
      · rename_i hk
        refine { he with lives := fun k' hl hm => ?_ }
        have hne : k' ≠ k := by
          rintro rfl
          exact hk hl
        have hl' := he.lives k' hl hm
        simpa [Client.senderLives, hhand, hne.symm] using hl'
  | wake k =>
    simp only [Client.step]
    split
    · rename_i hk
      split
      · exact he.setPhase (by rw [hk]; rfl) (by rintro _ ⟨⟩) (by rintro ⟨⟩) (by rintro ⟨⟩)
      · rename_i hmail
        rw [if_pos (he.lives k (by rw [hk]; rfl) hmail)]
        exact he
    · exact he
  | expire k =>
    simp only [Client.step]
    split
    · rename_i hk _
      split
      · exact he.setPhase (by rw [hk]; rfl) (by rintro _ ⟨⟩) (by rintro ⟨⟩) (by rintro ⟨⟩)
      · exact he
    · exact he
  | unlist k =>
    simp only [Client.step]
    split
    · rename_i hk
      exact he.unlist h hbegun hk
    · exact he
  | drop k =>
    simp only [Client.step]
    split
    · exact he
    · exact he
    · exact he
    · rename_i _ hanswered hfailed
      refine he.setPhase ?_ (by rintro _ ⟨⟩) (by rintro ⟨⟩) (by rintro ⟨⟩)
      cases hphase : (c.callers k).phase with
      | answered n => exact absurd hphase (hanswered n)
      | failed why => exact absurd hphase (hfailed why)
      | _ => rfl
  | eof =>
    simp only [Client.step]
    split
    · exact { he with }
    · exact he

theorem begun_le_step (c : Client) (i : Input) : c.begun ≤ (c.step i).1.begun := by
  cases i with
  | begin => exact Nat.le_succ _
  | read msg => cases msg <;> grind [Client.step]
  | _ => grind [Client.step, Client.setCaller]

theorem exact_final (es : List Input)
    (hbegun : (Run.final Client.step .attach es).begun ≤ 2 ^ 64) :
    Exact (Run.final Client.step .attach es) := by
  refine (Run.invariant (I := fun _ c => Sound c ∧ (c.begun ≤ 2 ^ 64 → Exact c))
    ⟨sound_attach, fun _ => exact_attach⟩ ?_ (Run.Always.true es)).2 hbegun
  rintro _ c i ⟨hsound, hexact⟩ -
  refine ⟨sound_step hsound i, fun hle => ?_⟩
  have hle := (begun_le_step c i).trans hle
  exact (hexact hle).step hsound hle i

/-- **Who is listed**, as long as the numbers have not wrapped around: a caller that was, whose
request has not failed, and no line with its number has been read since. A caller that was dropped
is listed until there is such a line. -/
theorem pending_iff (es : List Input)
    (hbegun : (Run.final Client.step .attach es).begun ≤ 2 ^ 64) (id : UInt64) (k : ℕ) :
    (Run.final Client.step .attach es).pending.get? id = some k ↔ id = number k ∧
      ∃ s, ((Run.final Client.step .attach es).callers k).since = some s ∧
        (∀ why, ((Run.final Client.step .attach es).callers k).phase ≠ .failed why) ∧
        ∀ msg ∈ (Run.final Client.step .attach es).lines.drop s,
          lineNumber msg ≠ some (number k) := by
  have hexact := exact_final es hbegun
  constructor
  · intro hk
    obtain ⟨rfl, hsince, -⟩ := (sound_final es).pending id k hk
    obtain ⟨s, hs⟩ := Option.isSome_iff_exists.mp hsince
    exact ⟨rfl, s, hs, (hexact.pending k s hs).mp hk⟩
  · rintro ⟨rfl, s, hs, hrest⟩
    exact (hexact.pending k s hs).mpr hrest

theorem pending_iff_dropped :
    (Run.final Client.step .attach [.begin, .list 0, .send 0 true, .drop 0]).pending.get? 1 =
        some 0 ↔ 1 = number 0 ∧
      ∃ s, ((Run.final Client.step .attach [.begin, .list 0, .send 0 true, .drop 0]).callers
          0).since = some s ∧
        (∀ why, ((Run.final Client.step .attach
          [.begin, .list 0, .send 0 true, .drop 0]).callers 0).phase ≠ .failed why) ∧
        ∀ msg ∈ (Run.final Client.step .attach
          [.begin, .list 0, .send 0 true, .drop 0]).lines.drop s,
          lineNumber msg ≠ some (number 0) :=
  pending_iff [.begin, .list 0, .send 0 true, .drop 0] (by decide) 1 0

/-- **A plugin that has gone is told to nobody**: no request ends because it has, as long as the
numbers have not wrapped around; who waits for it waits until the time is up. -/
theorem not_closed (es : List Input)
    (hbegun : (Run.final Client.step .attach es).begun ≤ 2 ^ 64) (k : ℕ) :
    (k, Except.error Failure.closed) ∉ told (Run.log Client.step .attach es) := by
  intro hmem
  obtain ⟨n, msg, -, -, hreply⟩ | ⟨why, hphase, heq⟩ := (told_final es).2 k _ hmem
  · rw [reply] at hreply
    split at hreply <;> cases hreply
  · cases heq
    exact ((exact_final es hbegun).open' k).2 hphase

theorem not_closed_eof : (0, Except.error Failure.closed) ∉ told (Run.log Client.step .attach
    [.begin, .list 0, .send 0 true, .eof, .wake 0, .expire 0, .unlist 0]) :=
  not_closed _ (by decide) 0

end ApexOS.Agentd.Mcp
