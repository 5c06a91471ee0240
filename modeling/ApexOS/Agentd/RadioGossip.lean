import ApexOS.Lib.RateLimit
import ApexOS.Lib.Run
import ApexOS.Mesh.Types

/-!
# Messages that an operator sends by radio

`mesh_gossip_handler` of `agentd/crates/gateway/src/lib.rs` and `MeshLink::admit_gossip` of
`mesh_link.rs`: a message for another node is handed to the lanes if the target is one node and not
this one, the text is short, the board said that it has room, and not too many were handed over
lately. What the board says comes in between, at any time; and a request that is refused takes
nothing from those that follow.

## Main definitions

* `MeshLink.admitGossip`, `MeshLink.step`: a request, and what the board says
* `lastStatus`, `handedAt`: the past

## Main results

* `handed_iff`: when a request is handed over, and as what
* `few_handed`: no ten seconds have more than four
-/

namespace ApexOS.Agentd.RadioGossip

open Mesh

/-- `GOSSIP_MAX_TEXT`. -/
def gossipMaxText : ℕ := 180

/-- `GOSSIP_QUEUE_CAP`. -/
def gossipQueueCap : UInt16 := 8

/-- `GOSSIP_RATE_MAX`. -/
def gossipRateMax : ℕ := 4

/-- `GOSSIP_RATE_WINDOW`, in nanoseconds. -/
def gossipRateWindow : ℕ := 10 * 10 ^ 9

/-- `GossipRefuse`. -/
inductive GossipRefuse
  | invalidTarget
  | broadcast
  | selfTarget
  | emptyText
  | tooLarge
  | queueFull
  | rateLimited
  deriving DecidableEq, Repr

/-- `GossipRefuse::error`. -/
def GossipRefuse.error : GossipRefuse → String
  | invalidTarget => "target must be a unicast radio node id"
  | broadcast => "broadcast gossip is not allowed"
  | selfTarget => "cannot gossip to this node's own radio id"
  | emptyText => "text is required"
  | tooLarge => "text exceeds radio gossip bound"
  | queueFull => "brainstem outbox is at quota"
  | rateLimited => "gossip rate limited"

/-- `BrainstemView`, but for what is only displayed. -/
structure BrainstemView where
  nodeId : UInt16
  queued : UInt16
  seen : Bool
  deriving DecidableEq, Repr

/-- `validate_gossip_target`. -/
def validateGossipTarget (target : UInt64) (selfId : Option UInt16) :
    Except GossipRefuse UInt16 :=
  if target = 0 ∨ 65535 < target then .error .invalidTarget
  else
    let id := target.toUInt16
    if id = broadcast then .error .broadcast
    else if selfId = some id then .error .selfTarget
    else .ok id

/-- `validate_gossip_text`. -/
def validateGossipText (text : String) : Except GossipRefuse Unit :=
  if text = "" then .error .emptyText
  else if gossipMaxText < text.utf8ByteSize then .error .tooLarge
  else .ok ()

/-- `MeshLink`: what the board said, and when requests were let through. -/
structure MeshLink where
  brainstem : BrainstemView
  gossipHits : RateLimit
  deriving DecidableEq, Repr

inductive Input
  | status (nodeId queued : UInt16)
  | gossip (target : Option UInt64) (text : String) (now : ℕ)
  deriving DecidableEq

inductive Output
  | noted
  | malformed
  | refused (why : GossipRefuse)
  | handed (packet : PlainPacket)
  deriving DecidableEq

namespace MeshLink

/-- `MeshLink::new`. -/
def new : MeshLink := ⟨⟨0, 0, false⟩, .empty⟩

variable (l : MeshLink)

/-- The board's own id, where it has said one. -/
def selfId : Option UInt16 :=
  if l.brainstem.seen = true ∧ l.brainstem.nodeId ≠ 0 then some l.brainstem.nodeId else none

/-- The checks of `admit_gossip` before the rate is looked at. -/
def checkGossip (target : UInt64) (text : String) : Except GossipRefuse UInt16 :=
  match validateGossipTarget target l.selfId with
  | .error why => .error why
  | .ok id =>
    match validateGossipText text with
    | .error why => .error why
    | .ok () =>
      if l.brainstem.seen = true ∧ gossipQueueCap ≤ l.brainstem.queued then .error .queueFull
      else .ok id

/-- `admit_gossip`. -/
def admitGossip (target : UInt64) (text : String) (now : ℕ) :
    MeshLink × Except GossipRefuse UInt16 :=
  match l.checkGossip target text with
  | .error why => (l, .error why)
  | .ok id =>
    let (hits, free) := l.gossipHits.take gossipRateMax gossipRateWindow now
    ({ l with gossipHits := hits }, if free then .ok id else .error .rateLimited)

/-- `mesh_gossip_handler`, and the status frames of `absorb_mesh_frame`. -/
def step : Input → MeshLink × Output
  | .status nodeId queued => ({ l with brainstem := ⟨nodeId, queued, true⟩ }, .noted)
  | .gossip none _ _ => (l, .malformed)
  | .gossip (some target) text now =>
    match l.admitGossip target text now with
    | (l, .error why) => (l, .refused why)
    | (l, .ok _) =>
      (l, .handed ⟨target.toUInt16, defaultHopLimit, 0, .a2a text.toUTF8.data.toList⟩)

end MeshLink

/-! ### The past -/

/-- What a status frame says: the id of the board, and how much it has queued. -/
def Input.status? : Input → Option (UInt16 × UInt16)
  | .status nodeId queued => some (nodeId, queued)
  | .gossip .. => none

def Input.time? : Input → Option ℕ
  | .status .. => none
  | .gossip _ _ now => some now

/-- What the board said last. -/
def lastStatus (es : List Input) : Option (UInt16 × UInt16) := (es.filterMap Input.status?).getLast?

/-- When requests were made. -/
def times (es : List Input) : List ℕ := es.filterMap Input.time?

/-- When requests were handed over. -/
def handedAt (past : List (Input × Output)) : List ℕ :=
  past.filterMap fun x => if let .handed _ := x.2 then x.1.time? else none

theorem lastStatus_concat (es : List Input) (i : Input) :
    lastStatus (es ++ [i]) = i.status?.or (lastStatus es) := by
  rw [lastStatus, List.filterMap_append, lastStatus]
  cases i <;> simp [Input.status?]

theorem times_concat (es : List Input) (i : Input) :
    times (es ++ [i]) = times es ++ i.time?.toList := by
  rw [times, List.filterMap_append, times]
  cases i <;> simp [Input.time?]

theorem handedAt_concat (past : List (Input × Output)) (i : Input) (o : Output) :
    handedAt (past ++ [(i, o)]) =
      handedAt past ++ if let .handed _ := o then i.time?.toList else [] := by
  rw [handedAt, List.filterMap_append, handedAt]
  congr 1
  cases o with
  | handed p => cases i <;> simp [Input.time?]
  | _ => rfl

/-! ### What is handed over -/

theorem validateGossipTarget_eq_ok {target : UInt64} {selfId : Option UInt16} {id : UInt16} :
    validateGossipTarget target selfId = .ok id ↔
      target = id.toUInt64 ∧ id ≠ 0 ∧ id ≠ broadcast ∧ selfId ≠ some id := by
  rw [validateGossipTarget]
  constructor
  · intro h
    split at h
    · cases h
    · rename_i hrange
      obtain ⟨hzero, hle⟩ := not_or.mp hrange
      have hlt : target.toNat < 2 ^ 16 := by
        have hle' : target.toNat ≤ 65535 := not_lt.mp fun h => hle (UInt64.lt_iff_toNat_lt.mpr h)
        omega
      have heq : target = target.toUInt16.toUInt64 := by
        rw [← UInt64.toNat_inj, UInt16.toNat_toUInt64, UInt64.toNat_toUInt16, Nat.mod_eq_of_lt hlt]
      have hne : target.toUInt16 ≠ 0 := fun hid => hzero (by rw [heq, hid]; rfl)
      dsimp only at h
      split at h
      · cases h
      · rename_i hbroadcast
        split at h
        · cases h
        · rename_i hself
          cases h
          exact ⟨heq, hne, hbroadcast, hself⟩
  · rintro ⟨rfl, hne, hbroadcast, hself⟩
    have hrange : ¬ (id.toUInt64 = 0 ∨ 65535 < id.toUInt64) := by
      have hlt := id.toNat_lt
      rw [← UInt64.toNat_inj, UInt64.lt_iff_toNat_lt, UInt16.toNat_toUInt64]
      exact not_or.mpr ⟨fun hid => hne (UInt16.toNat_inj.mp hid), fun h =>
        absurd (Nat.lt_of_lt_of_le hlt (Nat.succ_le_of_lt h)) (lt_irrefl _)⟩
    have hid : id.toUInt64.toUInt16 = id := UInt16.toUInt16_toUInt64 id
    rw [if_neg hrange]
    dsimp only
    rw [hid, if_neg hbroadcast, if_neg hself]

theorem validateGossipText_eq_ok {text : String} :
    validateGossipText text = .ok () ↔ text ≠ "" ∧ text.utf8ByteSize ≤ gossipMaxText := by
  rw [validateGossipText]
  split
  · rename_i h
    exact iff_of_false (by rintro ⟨⟩) fun h' => h'.1 h
  · rename_i h
    split
    · rename_i hlong
      exact iff_of_false (by rintro ⟨⟩) fun h' => absurd h'.2 (not_le.mpr hlong)
    · rename_i hshort
      exact iff_of_true rfl ⟨h, not_lt.mp hshort⟩

theorem selfId_ne_some {l : MeshLink} {id : UInt16} (hne : id ≠ 0) :
    l.selfId ≠ some id ↔ (l.brainstem.seen = true → id ≠ l.brainstem.nodeId) := by
  rw [MeshLink.selfId]
  split
  · rename_i h
    rw [ne_eq, Option.some_inj]
    exact ⟨fun h' _ heq => h' heq.symm, fun h' heq => h' h.1 heq.symm⟩
  · rename_i h
    refine iff_of_true (by rintro ⟨⟩) fun hseen heq => h ⟨hseen, fun hzero => hne ?_⟩
    rw [heq, hzero]

theorem checkGossip_eq_ok {l : MeshLink} {target : UInt64} {text : String} {id : UInt16} :
    l.checkGossip target text = .ok id ↔
      target = id.toUInt64 ∧ id ≠ 0 ∧ id ≠ broadcast ∧
        (l.brainstem.seen = true → id ≠ l.brainstem.nodeId ∧ l.brainstem.queued < gossipQueueCap) ∧
        text ≠ "" ∧ text.utf8ByteSize ≤ gossipMaxText := by
  rw [MeshLink.checkGossip]
  constructor
  · intro h
    split at h
    · cases h
    rename_i id' hid
    split at h
    · cases h
    rename_i htext
    split at h
    · cases h
    rename_i hroom
    cases h
    obtain ⟨htarget, hne, hbroadcast, hself⟩ := validateGossipTarget_eq_ok.mp hid
    refine ⟨htarget, hne, hbroadcast, fun hseen => ⟨(selfId_ne_some hne).mp hself hseen, ?_⟩,
      validateGossipText_eq_ok.mp htext⟩
    exact UInt16.not_le.mp fun hfull => hroom ⟨hseen, hfull⟩
  · rintro ⟨htarget, hne, hbroadcast, hboard, htext⟩
    have hself : l.selfId ≠ some id := (selfId_ne_some hne).mpr fun hseen => (hboard hseen).1
    have hroom : ¬ (l.brainstem.seen = true ∧ gossipQueueCap ≤ l.brainstem.queued) :=
      fun h => UInt16.not_le.mpr (hboard h.1).2 h.2
    rw [validateGossipTarget_eq_ok.mpr ⟨htarget, hne, hbroadcast, hself⟩]
    dsimp only
    rw [validateGossipText_eq_ok.mpr htext]
    exact if_neg hroom

/-! ### Over a run -/

/-- What the past says of the link. -/
structure Sound (es : List Input) (past : List (Input × Output)) (l : MeshLink) : Prop where
  brainstem : l.brainstem =
    (lastStatus es).elim ⟨0, 0, false⟩ fun s => ⟨s.1, s.2, true⟩
  hits : ∃ last, (last = 0 ∨ last ∈ times es) ∧
    l.gossipHits.Keeps gossipRateMax gossipRateWindow (handedAt past) last

theorem sound_new : Sound [] [] .new where
  brainstem := rfl
  hits := ⟨0, .inl rfl, RateLimit.keeps_empty 0⟩

/-- A request is refused before the rate is looked at. -/
theorem step_of_error {l : MeshLink} {target : UInt64} {text : String} {why : GossipRefuse}
    (h : l.checkGossip target text = .error why) (now : ℕ) :
    l.step (.gossip (some target) text now) = (l, .refused why) := by
  rw [MeshLink.step, MeshLink.admitGossip, h]

/-- A request is let through, or comes too soon. -/
theorem step_of_ok {l : MeshLink} {target : UInt64} {text : String} {id : UInt16}
    (h : l.checkGossip target text = .ok id) (now : ℕ) :
    l.step (.gossip (some target) text now) =
      ({ l with gossipHits := (l.gossipHits.take gossipRateMax gossipRateWindow now).1 },
        if (l.gossipHits.take gossipRateMax gossipRateWindow now).2 then
          .handed ⟨id, defaultHopLimit, 0, .a2a text.toUTF8.data.toList⟩
        else .refused .rateLimited) := by
  obtain ⟨rfl, -⟩ := checkGossip_eq_ok.mp h
  rw [MeshLink.step, MeshLink.admitGossip, h, UInt16.toUInt16_toUInt64]
  dsimp only
  cases (l.gossipHits.take gossipRateMax gossipRateWindow now).2 <;> rfl

variable {es : List Input} {past : List (Input × Output)} {l : MeshLink}

/-- Nothing was handed over. -/
theorem Sound.quiet (h : Sound es past l) {i : Input} {o : Output} (hi : i.status? = none)
    (ho : ∀ p, o ≠ .handed p) : Sound (es ++ [i]) (past ++ [(i, o)]) l where
  brainstem := by rw [lastStatus_concat, hi, Option.none_or, h.brainstem]
  hits := by
    obtain ⟨last, hlast, hkeeps⟩ := h.hits
    refine ⟨last, hlast.imp_right fun hmem => ?_, ?_⟩
    · rw [times_concat]
      exact List.mem_append_left _ hmem
    · rw [handedAt_concat]
      cases o with
      | handed p => exact absurd rfl (ho p)
      | _ => rwa [List.append_nil]

theorem sound_step (h : Sound es past l) (i : Input)
    (hclock : ∀ now, i.time? = some now → ∀ t ∈ times es, t ≤ now) :
    Sound (es ++ [i]) (past ++ [(i, (l.step i).2)]) (l.step i).1 := by
  cases i with
  | status nodeId queued =>
    refine ⟨by rw [lastStatus_concat]; rfl, ?_⟩
    obtain ⟨last, hlast, hkeeps⟩ := h.hits
    refine ⟨last, hlast.imp_right fun hmem => ?_, ?_⟩
    · rw [times_concat]
      exact List.mem_append_left _ hmem
    · rw [handedAt_concat]
      exact (List.append_nil (handedAt past)).symm ▸ hkeeps
  | gossip target text now =>
    cases target with
    | none => exact h.quiet rfl (by rintro p ⟨⟩)
    | some target =>
      cases hcheck : l.checkGossip target text with
      | error why =>
        rw [step_of_error hcheck]
        exact h.quiet rfl (by rintro p ⟨⟩)
      | ok id =>
        rw [step_of_ok hcheck]
        obtain ⟨last, hlast, hkeeps⟩ := h.hits
        have hle : last ≤ now := by
          obtain rfl | hmem := hlast
          · exact Nat.zero_le now
          · exact hclock now rfl last hmem
        have htake := (hkeeps.take (by decide) hle).2
        refine ⟨by rw [lastStatus_concat]; exact h.brainstem, now, .inr ?_, ?_⟩
        · rw [times_concat]
          exact List.mem_append_right _ (List.mem_singleton_self now)
        · rw [handedAt_concat]
          cases hfree : (l.gossipHits.take gossipRateMax gossipRateWindow now).2 with
          | true =>
            rw [hfree] at htake
            exact htake
          | false =>
            rw [hfree] at htake
            exact (List.append_nil (handedAt past)).symm ▸ htake

theorem sound_final (es : List Input) (hclock : (times es).Pairwise (· ≤ ·)) :
    Sound es (Run.log MeshLink.step .new es) (Run.final MeshLink.step .new es) := by
  induction es using List.reverseRecOn with
  | nil => exact sound_new
  | append_singleton es i ih =>
    rw [times_concat, List.pairwise_append] at hclock
    rw [Run.log_append, Run.final_append]
    refine sound_step (ih hclock.1) i fun now hnow t ht => hclock.2.2 t ht now ?_
    rw [hnow]
    exact List.mem_singleton_self now

/-- **When a request is handed over, and as what.** -/
theorem handed_iff (es : List Input) (target : Option UInt64) (text : String) (now : ℕ)
    (hclock : (times (es ++ [.gossip target text now])).Pairwise (· ≤ ·)) (p : PlainPacket) :
    ((Run.final MeshLink.step .new es).step (.gossip target text now)).2 = .handed p ↔
      ∃ id : UInt16, target = some id.toUInt64 ∧ id ≠ 0 ∧ id ≠ broadcast ∧
        (∀ s, lastStatus es = some s → id ≠ s.1 ∧ s.2 < gossipQueueCap) ∧
        text ≠ "" ∧ text.utf8ByteSize ≤ gossipMaxText ∧
        (RateLimit.recent gossipRateWindow now
          (handedAt (Run.log MeshLink.step .new es))).length < gossipRateMax ∧
        p = ⟨id, defaultHopLimit, 0, .a2a text.toUTF8.data.toList⟩ := by
  rw [times_concat, List.pairwise_append] at hclock
  have hsound := sound_final es hclock.1
  have hboard (id : UInt16) : ((Run.final MeshLink.step .new es).brainstem.seen = true →
      id ≠ (Run.final MeshLink.step .new es).brainstem.nodeId ∧
        (Run.final MeshLink.step .new es).brainstem.queued < gossipQueueCap) ↔
        ∀ s, lastStatus es = some s → id ≠ s.1 ∧ s.2 < gossipQueueCap := by
    rw [hsound.brainstem]
    cases lastStatus es <;> simp
  obtain ⟨last, hlast, hkeeps⟩ := hsound.hits
  have hle : last ≤ now := by
    obtain rfl | hmem := hlast
    · exact Nat.zero_le now
    · exact hclock.2.2 last hmem now (List.mem_singleton_self now)
  have hfree := (hkeeps.take (by decide) hle).1
  constructor
  · intro h
    cases target with
    | none => cases h
    | some target =>
      cases hcheck : (Run.final MeshLink.step .new es).checkGossip target text with
      | error why =>
        rw [step_of_error hcheck] at h
        cases h
      | ok id =>
        rw [step_of_ok hcheck] at h
        dsimp only at h
        split at h
        · rename_i htaken
          cases h
          obtain ⟨htarget, hne, hbroadcast, hseen, htext, hlength⟩ := checkGossip_eq_ok.mp hcheck
          exact ⟨id, congrArg some htarget, hne, hbroadcast, (hboard id).mp hseen, htext, hlength,
            hfree.mp htaken, rfl⟩
        · cases h
  · rintro ⟨id, rfl, hne, hbroadcast, hstatus, htext, hlength, hfew, rfl⟩
    have hcheck : (Run.final MeshLink.step .new es).checkGossip id.toUInt64 text = .ok id :=
      checkGossip_eq_ok.mpr ⟨rfl, hne, hbroadcast, (hboard id).mpr hstatus, htext, hlength⟩
    rw [step_of_ok hcheck]
    exact if_pos (hfree.mpr hfew)

/-- Five requests, of which the fourth names the board itself. -/
def fiveAsked : List Input :=
  [.status 3 0, .gossip (some 7) "a" 1, .gossip (some 7) "b" 2, .gossip (some 7) "c" 3,
    .gossip (some 3) "d" 4, .gossip (some 7) "e" 5]

theorem handed_iff_five :
    ((Run.final MeshLink.step .new (fiveAsked.take 5)).step (.gossip (some 7) "e" 5)).2 =
      .handed ⟨7, defaultHopLimit, 0, .a2a [101]⟩ := by
  refine (handed_iff (fiveAsked.take 5) (some 7) "e" 5 (by decide) _).mpr
    ⟨7, rfl, by decide, by decide, fun s hs => ?_, by decide, by decide, by decide, rfl⟩
  have hstatus : lastStatus (fiveAsked.take 5) = some (3, 0) := by decide
  obtain rfl := Option.some_inj.mp (hstatus.symm.trans hs)
  exact ⟨by decide, by decide⟩

/-- **No ten seconds have more than four** requests that are handed over. -/
theorem few_handed (es : List Input) (hclock : (times es).Pairwise (· ≤ ·)) (start : ℕ) :
    ((handedAt (Run.log MeshLink.step .new es)).filter fun t =>
      start ≤ t ∧ t < start + gossipRateWindow).length ≤ gossipRateMax := by
  obtain ⟨last, -, hkeeps⟩ := (sound_final es hclock).hits
  exact hkeeps.few start

theorem few_handed_five :
    ((handedAt (Run.log MeshLink.step .new fiveAsked)).filter fun t =>
      0 ≤ t ∧ t < 0 + gossipRateWindow).length ≤ gossipRateMax :=
  few_handed fiveAsked (by decide) 0

end ApexOS.Agentd.RadioGossip
