import ApexOS.Mesh.Frame
import Mathlib.Data.List.Sort

/-!
# The policy router

`agentd/crates/core/src/mesh_router.rs`: a frame is handed over with its class, and the router picks
the lanes that carry it. A lane is what the router sees of a transport: its id, the largest frame it
takes, its health, and its answer to a frame. A lane's answer may change that lane's own health; the
router does not look at a lane again once it has tried it, so the health of a lane is one value
here.

What `Router::send` tries, in its order, is recorded beside what it returns.

The length that the lanes are asked for comes from the datagram encoder, which has a limit of its
own: a frame beyond it counts as longer than every lane, however fat.

## Main definitions

* `TransportId`, `TransportHealth`, `Transport`, `Router`: the source's lanes and its router
* `Router.route`, `Router.send`: the policy, and the send
* `Reaches`: what a send owes to a class; `Spares`: no lane is lost to the encoder's limit

## Main results

* `Router.tried_nodup`: no lane is tried twice
* `Router.reaches_send_iff`: when a send reaches a lane whenever one fits
-/

namespace ApexOS.Mesh

/-! ### Lanes -/

/-- `TransportId`, cheapest first. -/
inductive TransportId
  | wifiLan
  | bleGossip
  | bleBulk
  | lora
  | courier
  deriving DecidableEq, Repr

namespace TransportId

/-- The cost ranking. -/
def rank : TransportId → ℕ
  | wifiLan => 0
  | bleGossip => 1
  | bleBulk => 2
  | lora => 3
  | courier => 4

/-- `is_bulk_capable`. -/
def isBulkCapable : TransportId → Bool
  | wifiLan | bleBulk | courier => true
  | bleGossip | lora => false

end TransportId

/-- `TransportHealth`. -/
inductive TransportHealth
  | up
  | flaky
  | down
  deriving DecidableEq, Repr

/-- `TransportHealth::usable`. -/
def TransportHealth.usable (h : TransportHealth) : Bool := h ≠ .down

/-- `SendReceipt`. -/
structure SendReceipt where
  via : TransportId
  bytes : ℕ
  deriving DecidableEq, Repr

/-- `SendError`. -/
inductive SendError
  | unavailable
  | failed (cause : String)
  deriving DecidableEq, Repr

/-- `MeshTransport`, as the router sees it. -/
structure Transport where
  id : TransportId
  mtu : ℕ
  health : TransportHealth
  send : MeshFrame → Except SendError SendReceipt

/-- A lane that is usable and takes a frame of this length. -/
def Transport.fits (t : Transport) (frameLen : ℕ) : Bool := t.health.usable && frameLen ≤ t.mtu

/-- The lane takes the frame. -/
def Transport.accepts (t : Transport) (frame : MeshFrame) : Bool := (t.send frame).isOk

/-! ### The router -/

/-- `RouteOutcome`. -/
structure RouteOutcome where
  sent : List SendReceipt
  failed : List (TransportId × SendError)

/-- A send under way: its outcome so far, and the lanes tried. -/
structure Trip where
  outcome : RouteOutcome
  tried : List TransportId

/-- Nothing tried. -/
def Trip.start : Trip := ⟨⟨[], []⟩, []⟩

/-- One lane is tried. -/
def Trip.attempt (frame : MeshFrame) (x : Trip) (t : Transport) : Trip :=
  match t.send frame with
  | .ok receipt => ⟨⟨x.outcome.sent ++ [receipt], x.outcome.failed⟩, x.tried ++ [t.id]⟩
  | .error e => ⟨⟨x.outcome.sent, x.outcome.failed ++ [(t.id, e)]⟩, x.tried ++ [t.id]⟩

/-- `Router`, without its seen-cache. -/
structure Router where
  transports : List Transport

/-- `usize::MAX`. -/
def usizeMax : ℕ := 2 ^ 64 - 1

namespace Router

/-- `Router::new`: cheapest first. -/
def new (transports : List Transport) : Router :=
  ⟨transports.insertionSort fun s t => s.id.rank ≤ t.id.rank⟩

/-- `Router::route`. -/
def route (r : Router) (cls : MeshClass) (frameLen : ℕ) : List TransportId :=
  let usable := r.transports.filter fun t => t.fits frameLen
  match cls with
  | .critical => usable.map Transport.id
  | .gossip | .digest =>
    (((usable.find? fun t => t.health = .up).or usable.head?).map Transport.id).toList
  | .bulk => ((usable.filter fun t => t.id.isBulkCapable).map Transport.id).take 1

/-- The first pass of `Router::send`: every lane of the route. -/
def sendAlong (r : Router) (frame : MeshFrame) (lanes : List TransportId) : Trip :=
  lanes.foldl (fun x id => match r.transports.find? fun t => t.id = id with
    | none => x
    | some t => x.attempt frame t) .start

/-- The second pass: the other lanes that fit, until one takes it. -/
def fallThrough (frame : MeshFrame) (frameLen : ℕ) (lanes : List TransportId) :
    List Transport → Trip → Trip
  | [], x => x
  | t :: ts, x =>
    if t.id ∈ lanes then fallThrough frame frameLen lanes ts x
    else if !t.health.usable || t.mtu < frameLen then fallThrough frame frameLen lanes ts x
    else match t.send frame with
      | .ok _ => x.attempt frame t
      | .error _ => fallThrough frame frameLen lanes ts (x.attempt frame t)

/-- The length `Router::send` asks the lanes for. -/
def frameLen (w : Wire) (frame : MeshFrame) : ℕ :=
  match encodeDatagram w frame with
  | .ok bytes => bytes.length
  | .error _ => usizeMax

/-- `Router::send`. -/
def send (w : Wire) (r : Router) (cls : MeshClass) (frame : MeshFrame) : Trip :=
  let len := frameLen w frame
  let lanes := r.route cls len
  let x := r.sendAlong frame lanes
  if x.outcome.sent.isEmpty && (cls = .gossip || cls = .digest) then
    fallThrough frame len lanes r.transports x
  else x

end Router

/-! ### The lanes of a route -/

variable {w : Wire} {r : Router} {ts : List Transport} {t : Transport} {frame : MeshFrame}
  {cls : MeshClass} {len : ℕ} {x : Trip} {lanes : List TransportId}

/-- What a pass over some lanes makes of a trip. -/
theorem foldl_attempt (frame : MeshFrame) (ts : List Transport) (x : Trip) :
    (ts.foldl (Trip.attempt frame) x).tried = x.tried ++ ts.map Transport.id ∧
    (ts.foldl (Trip.attempt frame) x).outcome.sent =
      x.outcome.sent ++ ts.filterMap fun t => (t.send frame).toOption := by
  induction ts generalizing x with
  | nil => simp
  | cons t ts ih =>
    obtain ⟨htried, hsent⟩ := ih (x.attempt frame t)
    rw [List.foldl_cons, htried, hsent]
    unfold Trip.attempt
    cases hanswer : t.send frame with
    | ok receipt => simp [hanswer, Except.toOption]
    | error e => simp [hanswer, Except.toOption]

/-- Lanes with distinct ids are found by their ids. -/
theorem find?_of_mem (hids : (ts.map Transport.id).Nodup) (ht : t ∈ ts) :
    (ts.find? fun s => s.id = t.id) = some t := by
  induction ts with
  | nil => cases ht
  | cons s ts ih =>
    rw [List.map_cons, List.nodup_cons] at hids
    rcases List.mem_cons.mp ht with rfl | ht
    · simp
    · have hne : s.id ≠ t.id := fun h => hids.1 (h ▸ List.mem_map_of_mem ht)
      rw [List.find?_cons_of_neg (by simpa using hne)]
      exact ih hids.2 ht

namespace Router

/-- The lanes `route` picks. -/
def picks (r : Router) (cls : MeshClass) (frameLen : ℕ) : List Transport :=
  let usable := r.transports.filter fun t => t.fits frameLen
  match cls with
  | .critical => usable
  | .gossip | .digest => ((usable.find? fun t => t.health = .up).or usable.head?).toList
  | .bulk => (usable.filter fun t => t.id.isBulkCapable).take 1

theorem route_eq_map (r : Router) (cls : MeshClass) (len : ℕ) :
    r.route cls len = (r.picks cls len).map Transport.id := by
  cases cls with
  | critical => rfl
  | gossip => exact Option.toList_map ..
  | digest => exact Option.toList_map ..
  | bulk => exact (List.map_take ..).symm

theorem picks_sublist (r : Router) (cls : MeshClass) (len : ℕ) :
    (r.picks cls len).Sublist (r.transports.filter fun t => t.fits len) := by
  have hone : (((r.transports.filter fun t => t.fits len).find? fun t => t.health = .up).or
      (r.transports.filter fun t => t.fits len).head?).toList.Sublist
        (r.transports.filter fun t => t.fits len) := by
    cases hpick : ((r.transports.filter fun t => t.fits len).find? fun t => t.health = .up).or
        (r.transports.filter fun t => t.fits len).head? with
    | none => exact List.nil_sublist _
    | some t =>
      refine List.singleton_sublist.mpr ?_
      rcases Option.or_eq_some_iff.mp hpick with hfind | ⟨-, hhead⟩
      · exact List.mem_of_find?_eq_some hfind
      · exact List.mem_of_mem_head? hhead
  cases cls with
  | critical => exact List.Sublist.refl _
  | gossip => exact hone
  | digest => exact hone
  | bulk => exact (List.take_sublist ..).trans List.filter_sublist

theorem mem_picks (h : t ∈ r.picks cls len) : t ∈ r.transports ∧ t.fits len = true :=
  List.mem_filter.mp ((picks_sublist r cls len).subset h)

theorem sendAlong_route (hids : (r.transports.map Transport.id).Nodup) (cls : MeshClass) (len : ℕ)
    (frame : MeshFrame) : r.sendAlong frame (r.route cls len) =
      (r.picks cls len).foldl (Trip.attempt frame) .start := by
  rw [sendAlong, route_eq_map, List.foldl_map]
  refine List.foldl_ext _ _ _ fun x t ht => ?_
  rw [find?_of_mem hids (mem_picks ht).1]

/-! ### The second pass -/

/-- The lanes the second pass may try. -/
def others (frameLen : ℕ) (lanes : List TransportId) (ts : List Transport) : List Transport :=
  ts.filter fun t => t.id ∉ lanes ∧ t.fits frameLen

theorem others_cons_of_skip (h : ¬ (t.id ∉ lanes ∧ t.fits len = true)) :
    others len lanes (t :: ts) = others len lanes ts :=
  List.filter_cons_of_neg (by simpa using h)

theorem others_cons (h : t.id ∉ lanes) (hfits : t.fits len = true) :
    others len lanes (t :: ts) = t :: others len lanes ts :=
  List.filter_cons_of_pos (by simp [h, hfits])

/-- **What the second pass tries and what it sends.** -/
theorem fallThrough_spec (frame : MeshFrame) (len : ℕ) (lanes : List TransportId)
    (ts : List Transport) (x : Trip) :
    (∃ tried : List Transport, tried.Sublist (others len lanes ts) ∧
      (fallThrough frame len lanes ts x).tried = x.tried ++ tried.map Transport.id) ∧
    (if ∃ t ∈ others len lanes ts, t.accepts frame = true then
      ∃ receipt, (fallThrough frame len lanes ts x).outcome.sent = x.outcome.sent ++ [receipt]
    else (fallThrough frame len lanes ts x).outcome.sent = x.outcome.sent) := by
  induction ts generalizing x with
  | nil => exact ⟨⟨[], List.nil_sublist _, by simp [fallThrough]⟩, by simp [others, fallThrough]⟩
  | cons t ts ih =>
    rw [fallThrough]
    split
    · rename_i hlane
      rw [others_cons_of_skip fun h => h.1 hlane]
      exact ih x
    · rename_i hlane
      split
      · rename_i hskip
        have hfits : ¬ t.fits len = true := by
          simp only [Transport.fits]
          simp at hskip ⊢
          intro husable
          exact hskip.resolve_left (by simp [husable])
        rw [others_cons_of_skip fun h => hfits h.2]
        exact ih x
      · rename_i hskip
        have hfits : t.fits len = true := by
          simp only [Transport.fits]
          simp at hskip ⊢
          exact hskip
        rw [others_cons hlane hfits]
        cases hanswer : t.send frame with
        | ok receipt =>
          have haccepts :
              t.accepts frame = true := by simp [Transport.accepts, hanswer, Except.isOk,
            Except.toBool]
          refine ⟨⟨[t], List.singleton_sublist.mpr (by simp), by simp [Trip.attempt, hanswer]⟩, ?_⟩
          rw [if_pos ⟨t, by simp, haccepts⟩]
          exact ⟨receipt, by simp [Trip.attempt, hanswer]⟩
        | error e =>
          have hrefuses :
              t.accepts frame = false := by simp [Transport.accepts, hanswer, Except.isOk,
            Except.toBool]
          obtain ⟨⟨tried, hsub, htried⟩, hsent⟩ := ih (x.attempt frame t)
          have hattempt : (x.attempt frame t).outcome.sent = x.outcome.sent := by
            simp [Trip.attempt, hanswer]
          refine ⟨⟨t :: tried, hsub.cons_cons t, ?_⟩, ?_⟩
          · rw [htried]
            simp [Trip.attempt, hanswer]
          · simp only [List.mem_cons, exists_eq_or_imp, hrefuses, Bool.false_eq_true, false_or,
              hattempt] at hsent ⊢
            exact hsent

/-! ### A send -/

/-- The lanes of a send, whatever its class: those of the route, and then others. -/
theorem tried_send (w : Wire) (hids : (r.transports.map Transport.id).Nodup) (cls : MeshClass)
    (frame : MeshFrame) : ∃ tried : List Transport, tried.Sublist
        (others (frameLen w frame) (r.route cls (frameLen w frame)) r.transports) ∧
      (r.send w cls frame).tried =
        r.route cls (frameLen w frame) ++ tried.map Transport.id := by
  have hfirst : (r.sendAlong frame (r.route cls (frameLen w frame))).tried =
      r.route cls (frameLen w frame) := by
    rw [sendAlong_route hids, (foldl_attempt ..).1, route_eq_map]
    rfl
  unfold send
  extract_lets len lanes x
  split
  · obtain ⟨⟨tried, hsub, htried⟩, -⟩ := fallThrough_spec frame len lanes r.transports x
    exact ⟨tried, hsub, by rw [htried, hfirst]⟩
  · exact ⟨[], List.nil_sublist _, by rw [hfirst, List.map_nil, List.append_nil]⟩

/-- **No lane is tried twice.** -/
theorem tried_nodup (w : Wire) (hids : (r.transports.map Transport.id).Nodup) (cls : MeshClass)
    (frame : MeshFrame) : (r.send w cls frame).tried.Nodup := by
  obtain ⟨tried, hsub, htried⟩ := tried_send w hids cls frame
  rw [htried, List.nodup_append]
  refine ⟨?_, ?_, fun a ha b hb heq => ?_⟩
  · rw [route_eq_map]
    exact (((picks_sublist r cls _).trans List.filter_sublist).map Transport.id).nodup hids
  · exact ((hsub.trans List.filter_sublist).map Transport.id).nodup hids
  · obtain ⟨t, ht, rfl⟩ := List.mem_map.mp hb
    have hother := (List.mem_filter.mp (hsub.subset ht)).2
    simp only [decide_eq_true_eq] at hother
    exact hother.1 (heq ▸ ha)

end Router

/-- What a send of a frame of this size owes: a `Gossip` or a `Digest` leaves on exactly one lane if
some usable lane that it fits takes it, and on none otherwise; a `Critical` tries exactly the usable
lanes that it fits; a `Bulk` tries none but usable bulk-capable lanes that it fits, and one if there
is one. -/
def Reaches (ts : List Transport) (cls : MeshClass) (frame : MeshFrame) (size : ℕ)
    (x : Trip) : Prop :=
  match cls with
  | .gossip | .digest =>
    if ∃ t ∈ ts, t.fits size = true ∧ t.accepts frame = true then x.outcome.sent.length = 1
    else x.outcome.sent = []
  | .critical => ∀ t ∈ ts, t.id ∈ x.tried ↔ t.fits size = true
  | .bulk =>
      (∀ id ∈ x.tried, ∃ t ∈ ts, t.id = id ∧ t.id.isBulkCapable = true ∧ t.fits size = true) ∧
      ((∃ t ∈ ts, t.id.isBulkCapable = true ∧ t.fits size = true) → x.tried ≠ [])

theorem Reaches.sent_ne_nil {size : ℕ} (h : Reaches ts .gossip frame size x)
    (hex : ∃ t ∈ ts, t.fits size = true ∧ t.accepts frame = true) : x.outcome.sent ≠ [] := by
  intro hnil
  unfold Reaches at h
  rw [if_pos hex, hnil] at h
  cases h

/-- No lane is lost if the frame counts as longer than every lane that is not as fat as can be. -/
def Spares (ts : List Transport) (cls : MeshClass) (frame : MeshFrame) (size : ℕ) : Prop :=
  match cls with
  | .gossip | .digest => (∃ t ∈ ts, t.fits size = true ∧ t.accepts frame = true) →
      ∃ t ∈ ts, t.fits usizeMax = true ∧ t.accepts frame = true
  | .critical => ∀ t ∈ ts, t.fits size = true → t.fits usizeMax = true
  | .bulk => (∃ t ∈ ts, t.id.isBulkCapable = true ∧ t.fits size = true) →
      ∃ t ∈ ts, t.id.isBulkCapable = true ∧ t.fits usizeMax = true

namespace Router

theorem eq_of_id (hids : (ts.map Transport.id).Nodup) {s : Transport} (hs : s ∈ ts) (ht : t ∈ ts)
    (h : s.id = t.id) : s = t := List.inj_on_of_nodup_map hids hs ht h

/-- A single lane, with the others to fall back on. -/
theorem reaches_single (w : Wire) (hids : (r.transports.map Transport.id).Nodup)
    (hcls : cls = .gossip ∨ cls = .digest) :
    if ∃ t ∈ r.transports, t.fits (frameLen w frame) = true ∧ t.accepts frame = true then
      (r.send w cls frame).outcome.sent.length = 1
    else (r.send w cls frame).outcome.sent = [] := by
  have hpicks : r.picks cls (frameLen w frame) = (((r.transports.filter fun t =>
      t.fits (frameLen w frame)).find? fun t => t.health = .up).or
        (r.transports.filter fun t => t.fits (frameLen w frame)).head?).toList := by
    rcases hcls with rfl | rfl <;> rfl
  have hfirst := (foldl_attempt frame (r.picks cls (frameLen w frame)) .start).2
  rw [← sendAlong_route hids] at hfirst
  have hagain : (decide (cls = .gossip) || decide (cls = .digest)) = true := by simpa using hcls
  unfold send
  extract_lets len lanes x
  rw [hagain, Bool.and_true]
  -- Unless the route's lane took the frame, the second pass decides.
  have hsecond (hsent : x.outcome.sent = [])
      (hothers : (∃ t ∈ r.transports, t.fits len = true ∧ t.accepts frame = true) ↔
        ∃ t ∈ others len lanes r.transports, t.accepts frame = true) :
      if ∃ t ∈ r.transports, t.fits len = true ∧ t.accepts frame = true then
        (if x.outcome.sent.isEmpty = true then fallThrough frame len lanes r.transports x
          else x).outcome.sent.length = 1
      else (if x.outcome.sent.isEmpty = true then fallThrough frame len lanes r.transports x
          else x).outcome.sent = [] := by
    have hempty : (if x.outcome.sent.isEmpty = true then fallThrough frame len lanes r.transports x
        else x) = fallThrough frame len lanes r.transports x := if_pos (by rw [hsent]; rfl)
    rw [hempty]
    have hspec := (fallThrough_spec frame len lanes r.transports x).2
    by_cases hex : ∃ t ∈ r.transports, t.fits len = true ∧ t.accepts frame = true
    · rw [if_pos hex]
      rw [if_pos (hothers.mp hex)] at hspec
      obtain ⟨receipt, hspec⟩ := hspec
      rw [hspec, hsent]
      rfl
    · rw [if_neg hex]
      rw [if_neg fun h => hex (hothers.mpr h), hsent] at hspec
      exact hspec
  cases hpick : r.picks cls (frameLen w frame) with
  | nil =>
    have hnone (t : Transport) (ht : t ∈ r.transports) : ¬ t.fits len = true := by
      intro hfits
      have hmem : t ∈ r.transports.filter fun t => t.fits (frameLen w frame) :=
        List.mem_filter.mpr ⟨ht, hfits⟩
      rw [hpicks, Option.toList_eq_nil_iff, Option.or_eq_none_iff] at hpick
      rw [List.head?_eq_none_iff.mp hpick.2] at hmem
      cases hmem
    rw [hpick] at hfirst
    refine hsecond hfirst ⟨?_, ?_⟩
    · rintro ⟨t, ht, hfits, -⟩
      exact absurd hfits (hnone t ht)
    · rintro ⟨t, ht, -⟩
      obtain ⟨ht, hother⟩ := List.mem_filter.mp ht
      exact absurd (of_decide_eq_true hother).2 (hnone t ht)
  | cons t rest =>
    obtain rfl : rest = [] := by
      have hlen : (r.picks cls (frameLen w frame)).length ≤ 1 := by
        rw [hpicks]
        exact Option.length_toList_le
      rw [hpick, List.length_cons] at hlen
      exact List.length_eq_zero_iff.mp (by omega)
    obtain ⟨ht, hfits⟩ := mem_picks (r := r) (t := t) (by rw [hpick]; simp)
    rw [hpick, List.filterMap_cons, List.filterMap_nil] at hfirst
    have hlanes : lanes = [t.id] := by
      change r.route cls (frameLen w frame) = [t.id]
      rw [route_eq_map, hpick]
      rfl
    cases hanswer : t.send frame with
    | ok receipt =>
      have haccepts : t.accepts frame = true := by
        simp [Transport.accepts, hanswer, Except.isOk, Except.toBool]
      have hsent : x.outcome.sent = [receipt] := by
        rw [hanswer] at hfirst
        exact hfirst
      rw [if_pos ⟨t, ht, hfits, haccepts⟩, if_neg (by rw [hsent]; simp), hsent]
      rfl
    | error e =>
      have hrefuses : t.accepts frame = false := by
        simp [Transport.accepts, hanswer, Except.isOk, Except.toBool]
      rw [hanswer] at hfirst
      refine hsecond hfirst ⟨?_, ?_⟩
      · rintro ⟨s, hs, hfits', haccepts⟩
        refine ⟨s, List.mem_filter.mpr ⟨hs, ?_⟩, haccepts⟩
        have hne : s.id ≠ t.id := by
          intro heq
          rw [eq_of_id hids hs ht heq, hrefuses] at haccepts
          cases haccepts
        simp [hlanes, hne, hfits']
      · rintro ⟨s, hs, haccepts⟩
        obtain ⟨hs, hother⟩ := List.mem_filter.mp hs
        exact ⟨s, hs, (of_decide_eq_true hother).2, haccepts⟩

/-- The lanes of a class that has no second pass are those of the route. -/
theorem tried_route (w : Wire) (frame : MeshFrame) (hids : (r.transports.map Transport.id).Nodup)
    (hcls : cls = .critical ∨ cls = .bulk) :
    (r.send w cls frame).tried = (r.picks cls (frameLen w frame)).map Transport.id := by
  have hagain : (decide (cls = .gossip) || decide (cls = .digest)) = false := by
    rcases hcls with rfl | rfl <;> rfl
  unfold send
  extract_lets len lanes x
  rw [hagain, Bool.and_false, if_neg (by simp)]
  change (r.sendAlong frame (r.route cls (frameLen w frame))).tried = _
  rw [sendAlong_route hids, (foldl_attempt ..).1]
  rfl

/-- **A send reaches what it owes, for the length that the lanes were asked for.** -/
theorem reaches_frameLen (w : Wire) (hids : (r.transports.map Transport.id).Nodup) (cls : MeshClass)
    (frame : MeshFrame) :
    Reaches r.transports cls frame (frameLen w frame) (r.send w cls frame) := by
  cases cls with
  | gossip => exact reaches_single w hids (Or.inl rfl)
  | digest => exact reaches_single w hids (Or.inr rfl)
  | critical =>
    intro t ht
    rw [tried_route w frame hids (Or.inl rfl)]
    constructor
    · intro hmem
      obtain ⟨s, hs, heq⟩ := List.mem_map.mp hmem
      obtain ⟨hs, hfits⟩ := mem_picks hs
      rwa [← eq_of_id hids hs ht heq]
    · exact fun hfits => List.mem_map_of_mem (List.mem_filter.mpr ⟨ht, hfits⟩)
  | bulk =>
    have htried := tried_route w frame hids (Or.inr (rfl : MeshClass.bulk = .bulk))
    refine ⟨fun id hid => ?_, ?_⟩
    · rw [htried] at hid
      obtain ⟨t, ht, rfl⟩ := List.mem_map.mp hid
      obtain ⟨hmem, hfits⟩ := mem_picks ht
      exact ⟨t, hmem, rfl, (List.mem_filter.mp (List.mem_of_mem_take ht)).2, hfits⟩
    · rintro ⟨t, ht, hbulk, hfits⟩ hnil
      rw [htried, List.map_eq_nil_iff] at hnil
      have hmem : t ∈ (r.transports.filter fun t => t.fits (frameLen w frame)).filter fun t =>
          t.id.isBulkCapable :=
        List.mem_filter.mpr ⟨List.mem_filter.mpr ⟨ht, hfits⟩, hbulk⟩
      rcases List.take_eq_nil_iff.mp hnil with h | h
      · cases h
      · rw [h] at hmem
        cases hmem

theorem reaches_congr {s ts : List Transport} (h : ∀ t, t ∈ s ↔ t ∈ ts) (cls : MeshClass)
    (frame : MeshFrame) (size : ℕ) (x : Trip) :
    Reaches s cls frame size x ↔ Reaches ts cls frame size x := by
  cases cls <;> simp only [Reaches, h]

theorem fits_of_le {size : ℕ} (hsize : size ≤ len) (h : t.fits len = true) :
    t.fits size = true := by
  simp only [Transport.fits, Bool.and_eq_true, decide_eq_true_eq] at h ⊢
  exact ⟨h.1, hsize.trans h.2⟩

/-- What is owed for a length is owed for a shorter one, exactly if no lane tells them apart. -/
theorem reaches_iff_spares {size : ℕ} (hsize : size ≤ usizeMax)
    (h : Reaches ts cls frame usizeMax x) :
    Reaches ts cls frame size x ↔ Spares ts cls frame size := by
  have hsingle {p q : Prop} [Decidable p] [Decidable q] {l : List SendReceipt} (hqp : q → p)
      (hq : if q then l.length = 1 else l = []) :
      (if p then l.length = 1 else l = []) ↔ (p → q) := by
    by_cases hq' : q
    · rw [if_pos hq'] at hq
      rw [if_pos (hqp hq')]
      exact ⟨fun _ _ => hq', fun _ => hq⟩
    · rw [if_neg hq'] at hq
      subst hq
      by_cases hp : p <;> simp [hp, hq']
  have hshorter : (∃ t ∈ ts, t.fits usizeMax = true ∧ t.accepts frame = true) →
      ∃ t ∈ ts, t.fits size = true ∧ t.accepts frame = true := by
    rintro ⟨t, ht, hfits, haccepts⟩
    exact ⟨t, ht, fits_of_le hsize hfits, haccepts⟩
  cases cls with
  | gossip => exact hsingle hshorter h
  | digest => exact hsingle hshorter h
  | critical =>
    constructor
    · exact fun hr t ht hfits => (h t ht).mp ((hr t ht).mpr hfits)
    · exact fun hs t ht => ⟨fun hmem => fits_of_le hsize ((h t ht).mp hmem),
        fun hfits => (h t ht).mpr (hs t ht hfits)⟩
  | bulk =>
    constructor
    · intro hr hfits
      obtain ⟨id, hid⟩ := List.exists_mem_of_ne_nil _ (hr.2 hfits)
      obtain ⟨t, ht, -, hbulk, hfits'⟩ := h.1 id hid
      exact ⟨t, ht, hbulk, hfits'⟩
    · refine fun hs => ⟨fun id hid => ?_, fun hfits => h.2 (hs hfits)⟩
      obtain ⟨t, ht, hid', hbulk, hfits⟩ := h.1 id hid
      exact ⟨t, ht, hid', hbulk, fits_of_le hsize hfits⟩

/-- **When a send reaches a lane whenever one fits**, of lanes with distinct ids and a frame that
has an encoding: no lane is tried twice, whatever the frame, and the class gets what it is owed
exactly if the encoding is within the limit of a datagram, or no lane is lost by its being
beyond. -/
theorem reaches_send_iff (w : Wire) (ts : List Transport) (hids : (ts.map Transport.id).Nodup)
    (cls : MeshClass) (frame : MeshFrame) {body : Bytes}
    (hbody : w.postcard.toAllocvec frame = some body)
    (hsize : body.length ≤ usizeMax) :
    (((new ts).send w cls frame).tried.Nodup ∧
      Reaches ts cls frame body.length ((new ts).send w cls frame)) ↔
    body.length ≤ maxDatagramFrame ∨ Spares ts cls frame body.length := by
  have hperm : (new ts).transports.Perm ts := List.perm_insertionSort ..
  have hids' : ((new ts).transports.map Transport.id).Nodup := (hperm.map _).nodup_iff.mpr hids
  have hreaches := reaches_frameLen w hids' cls frame
  rw [reaches_congr fun t => hperm.mem_iff] at hreaches
  rw [and_iff_right (tried_nodup w hids' cls frame)]
  by_cases hlen : body.length ≤ maxDatagramFrame
  · have hframe : frameLen w frame = body.length := by
      rw [frameLen, encodeDatagram, hbody]
      simp [Nat.not_lt.mpr hlen]
    rw [hframe] at hreaches
    exact ⟨fun _ => Or.inl hlen, fun _ => hreaches⟩
  · have hframe : frameLen w frame = usizeMax := by
      rw [frameLen, encodeDatagram, hbody]
      simp [Nat.not_le.mp hlen]
    rw [hframe] at hreaches
    rw [reaches_iff_spares hsize hreaches]
    exact ⟨Or.inr, fun h => h.resolve_left hlen⟩

/-- The LAN, which takes what it is given. -/
def lan : Transport := ⟨.wifiLan, 64 * 1024, .up, fun _ => .ok ⟨.wifiLan, 300⟩⟩

/-- A frame of three hundred bytes. -/
def longFrame : MeshFrame := ⟨1, .gossip, 0, 1, List.replicate 300 0⟩

/-- A frame of sixteen bytes goes over the LAN. -/
theorem reaches_send_short :
    ((new [lan]).send publishedWire .gossip
    ⟨1, .gossip, 0, 1, List.replicate 16 0⟩).tried = [.wifiLan] ∧
    Reaches [lan] .gossip ⟨1, .gossip, 0, 1, List.replicate 16 0⟩ 21
      ((new [lan]).send publishedWire .gossip ⟨1, .gossip, 0, 1, List.replicate 16 0⟩) := by
  refine ⟨by decide +kernel, ?_⟩
  have hbody : publishedWire.postcard.toAllocvec ⟨1, .gossip, 0, 1, List.replicate 16 0⟩ =
      some ([1, 1, 0, 1, 16] ++ List.replicate 16 0) := by decide +kernel
  exact ((reaches_send_iff publishedWire [lan] (by decide) .gossip _ hbody (by decide)).mpr
    (Or.inl (by decide))).2

/-- Its encoding. -/
def longBody : Bytes := [1, 1, 0, 1, 172, 2] ++ List.replicate 300 0

set_option maxRecDepth 4000 in
/-- **A frame of three hundred bytes is not sent**, although the LAN is up, is fat enough and would
take it. -/
theorem not_reaches_longFrame :
    publishedWire.postcard.toAllocvec longFrame = some longBody ∧ lan.fits longBody.length = true ∧
      lan.accepts longFrame = true ∧
      ((new [lan]).send publishedWire .gossip longFrame).outcome.sent = [] ∧
      ¬ Reaches [lan] .gossip longFrame longBody.length
        ((new [lan]).send publishedWire .gossip longFrame) := by
  have hfits : lan.fits longBody.length = true := by decide +kernel
  have haccepts : lan.accepts longFrame = true := by decide +kernel
  have hsent : ((new [lan]).send publishedWire .gossip longFrame).outcome.sent = [] := by
    decide +kernel
  refine ⟨by decide +kernel, hfits, haccepts, hsent, fun h => ?_⟩
  exact (h.sent_ne_nil ⟨lan, List.mem_singleton_self lan, hfits, haccepts⟩) hsent

end Router

end ApexOS.Mesh
