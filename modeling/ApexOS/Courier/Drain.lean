import ApexOS.Courier.Cargo
import ApexOS.Courier.Shipments

/-!
# The outbox over the network

When the network is back the outbox is drained over it. The rows are read once; then each is posted,
which waits for the peer and holds no lock, and when the peer has answered the outbox is read again
and the row with that number is marked as delivered. Anything may happen to the outbox in between.
Whatever it is, nothing is lost by it: the row is marked in the outbox as it is then.

But a number is not a row. A row that is cancelled while its artifact is on its way gives its number
back, if it was the highest, and an artifact queued meanwhile takes it and is marked in its place.

## Main definitions

* `Tracked`: a node, with the `queue_artifact` call that each row comes from
* `Tracked.MarksOwn`: a drain marks the row that it has posted, and nothing else
* `Tracked.Fresh`: no row gets the number of one that a drain has still to mark

## Main results

* `Tracked.marksOwn_of_fresh`: under that condition a drain marks its own
-/

namespace ApexOS.Courier

/-- A node, and of every row the call that queued it: of those in the outbox, and of those that a
drain has read and not yet come to. -/
structure Tracked where
  node : Node
  births : List ℕ
  reading : List ℕ
  queued : ℕ

namespace Tracked

/-- The calls that queued the rows a drain reads. -/
def readings (outbox : List OutboxEntry) (births : List ℕ) : List ℕ :=
  ((outbox.zip births).filter fun x => x.1.receiptedAt.isNone).map Prod.snd

variable (blobRoot : Bytes → String) (host : Host)

/-- One operation of the node. -/
def step (t : Tracked) (i : Node.Input) : Tracked × Node.Output :=
  let r := t.node.step blobRoot host i
  ({ node := r.1
     births := match r.2 with
       | .queue (.queued _) => t.births ++ [t.queued]
       | .cancel (.cancelled e _) => t.births.eraseIdx (t.node.outbox.findIdx fun x => x.id = e.id)
       | _ => t.births
     reading := match i with
       | .drain => t.reading ++ readings t.node.outbox t.births
       | .drained k _ _ _ => t.reading.eraseIdx k
       | _ => t.reading
     queued := match r.2 with
       | .queue (.queued _) => t.queued + 1
       | _ => t.queued }, r.2)

/-- A node on which nothing has been queued. -/
def new (files : String → Source) : Tracked := ⟨Node.new files, [], [], 0⟩

/-- **A drain marks its own**: as it comes to a row, every row of the outbox stays as it is, except
for the one whose artifact it has posted. -/
def MarksOwn (t : Tracked) : Node.Input → Prop
  | .drained k sent now w =>
    let t' := (t.step blobRoot host (.drained k sent now w)).1
    t'.node.outbox.length = t.node.outbox.length ∧ ∀ m : ℕ,
      t'.node.outbox[m]? = t.node.outbox[m]? ∨ sent = true ∧ t.births[m]? = t.reading[k]? ∧
        ∃ e, t.node.outbox[m]? = some e ∧ t'.node.outbox[m]? = some (e.receipted now)
  | _ => True

/-- A row that is added does not get the number of one that a drain has still to come to. -/
def Fresh (t : Tracked) : Node.Input → Prop
  | .queue path dest _ _ w => t.node.adds blobRoot path dest w = true →
      nextId t.node.outbox ∉ t.node.draining.map OutboxEntry.id
  | _ => True

instance (t : Tracked) : ∀ i : Node.Input, Decidable (t.Fresh blobRoot i)
  | .queue .. => inferInstanceAs (Decidable (_ → _ ∉ _))
  | .cancel .. | .plug .. | .hear .. | .drain | .drained .. | .change .. =>
    inferInstanceAs (Decidable True)

/-! ### Rows by their numbers -/

variable {blobRoot host} {t : Tracked}

/-- Every row is on record, and a row that a drain reads is the one in the outbox with its
number. -/
structure Paired (t : Tracked) : Prop where
  stamped : Stamped t.node.outbox
  births : t.births.length = t.node.outbox.length
  reading : t.reading.length = t.node.draining.length
  same : ∀ (k m i : ℕ), (t.node.draining.map OutboxEntry.id)[k]? = some i →
    (t.node.outbox.map OutboxEntry.id)[m]? = some i → t.reading[k]? = t.births[m]?

theorem paired_new (files : String → Source) : Paired (new files) where
  stamped := stamped_nil
  births := rfl
  reading := rfl
  same := fun k m i h => by simp [new, Node.new] at h

theorem ids_of_keys {o o' : List OutboxEntry} (h : keys o' = keys o) :
    o'.map OutboxEntry.id = o.map OutboxEntry.id := by
  have := congrArg (List.map Prod.fst) h
  simpa [keys, OutboxEntry.key, Function.comp_def] using this

/-- A node whose rows have kept their numbers, and whose drains have not moved on. -/
theorem Paired.congr (h : t.Paired) {n : Node} (hkeys : keys n.outbox = keys t.node.outbox)
    (hdraining : n.draining = t.node.draining) : Paired { t with node := n } := by
  have hids := ids_of_keys hkeys
  refine ⟨h.stamped.congr hkeys, ?_, ?_, fun k m i hk hm => ?_⟩
  · rw [h.births]
    simpa using (congrArg List.length hids).symm
  · rw [h.reading, hdraining]
  · dsimp only at hk hm
    rw [hdraining] at hk
    rw [hids] at hm
    exact h.same k m i hk hm

theorem draining_processPlug (blobRoot : Bytes → String) (host : Host) (w : PlugWorld) (n : Node)
    (s : Stick) (psk : Option Bytes32) :
    (processPlug blobRoot host w n s psk).1.draining = n.draining := by
  rcases processPlug_cases blobRoot host w n s psk with ⟨hn, -⟩ | ⟨s', id, key, -, -, -, hplug, -⟩
  · rw [hn]
  · rw [hplug]
    rfl

theorem draining_ledgerHearReceipt (n : Node) (r : HeardReceipt) (ledgerWrite outboxWrite : Write) :
    (ledgerHearReceipt n r ledgerWrite outboxWrite).1.draining = n.draining := by
  rw [ledgerHearReceipt]
  split <;> rfl

/-- A row is added under a number that no drain has still to come to. -/
theorem Paired.added (h : t.Paired) {e : OutboxEntry} (hid : e.id = nextId t.node.outbox)
    (hstamp : e.shipmentId = shipmentIdFor e.dest e.id)
    (hfresh : nextId t.node.outbox ∉ t.node.draining.map OutboxEntry.id) (q : ℕ) :
    Paired { t with
      node := { t.node with outbox := t.node.outbox ++ [e] }
      births := t.births ++ [t.queued]
      queued := q } := by
  refine ⟨h.stamped.concat hid hstamp, ?_, h.reading, fun k m i hk hm => ?_⟩
  · simp [h.births]
  · dsimp only at hk hm ⊢
    rw [List.map_append, List.map_singleton] at hm
    have hlength : (t.node.outbox.map OutboxEntry.id).length = t.births.length := by
      rw [List.length_map, h.births]
    rcases Nat.lt_or_ge m t.births.length with hlt | hge
    · rw [List.getElem?_append_left (by omega)] at hm
      rw [List.getElem?_append_left hlt]
      exact h.same k m i hk hm
    · rw [List.getElem?_append_right (by omega)] at hm
      have hi : i = nextId t.node.outbox :=
        (List.mem_singleton.mp (List.mem_of_getElem? hm)).trans hid
      exact absurd (hi ▸ List.mem_of_getElem? hk) hfresh

/-- A row is cancelled, and its record with it. -/
theorem Paired.erased (h : t.Paired) {e : OutboxEntry} (he : e ∈ t.node.outbox) :
    Paired { t with
      node := { t.node with outbox := t.node.outbox.eraseP fun x => x.id = e.id }
      births := t.births.eraseIdx (t.node.outbox.findIdx fun x => x.id = e.id) } := by
  have hlt : (t.node.outbox.findIdx fun x => decide (x.id = e.id)) < t.node.outbox.length :=
    List.findIdx_lt_length_of_exists ⟨e, he, decide_eq_true rfl⟩
  have herase : (t.node.outbox.eraseP fun x => x.id = e.id) =
      t.node.outbox.eraseIdx (t.node.outbox.findIdx fun x => x.id = e.id) := by
    rw [List.eraseP_eq_eraseIdx, (List.findIdx?_eq_some_iff_findIdx_eq).mpr ⟨hlt, rfl⟩]
  refine ⟨h.stamped.sublist List.eraseP_sublist, ?_, h.reading, fun k m i hk hm => ?_⟩
  · dsimp only
    rw [herase, List.length_eraseIdx, List.length_eraseIdx, h.births]
  · dsimp only at hk hm ⊢
    rw [herase, ← List.eraseIdx_map, List.getElem?_eraseIdx] at hm
    rw [List.getElem?_eraseIdx]
    split at hm
    · rename_i hbefore
      rw [if_pos hbefore]
      exact h.same k m i hk hm
    · rename_i hafter
      rw [if_neg hafter]
      exact h.same k (m + 1) i hk hm

/-- A drain reads the rows: each is the one in the outbox with its number. -/
theorem Paired.drained (h : t.Paired) :
    Paired { t with
      node := t.node.drainOutbox
      reading := t.reading ++ readings t.node.outbox t.births } := by
  have hfst : ((t.node.outbox.zip t.births).filter fun x => x.1.receiptedAt.isNone).map Prod.fst =
      t.node.outbox.filter fun e => e.receiptedAt.isNone := by
    rw [show (fun x : OutboxEntry × ℕ => x.1.receiptedAt.isNone) =
      (fun e : OutboxEntry => e.receiptedAt.isNone) ∘ Prod.fst from rfl, ← List.filter_map,
      List.map_fst_zip h.births.ge]
  refine ⟨h.stamped, h.births, ?_, fun k m i hk hm => ?_⟩
  · dsimp only [Node.drainOutbox]
    rw [List.length_append, List.length_append, h.reading, ← hfst, readings, List.length_map,
      List.length_map]
  · dsimp only [Node.drainOutbox] at hk hm ⊢
    rw [List.map_append] at hk
    have hlength : (t.node.draining.map OutboxEntry.id).length = t.reading.length := by
      rw [List.length_map, h.reading]
    rcases Nat.lt_or_ge k t.reading.length with hlt | hge
    · rw [List.getElem?_append_left (by omega)] at hk
      rw [List.getElem?_append_left hlt]
      exact h.same k m i hk hm
    · rw [List.getElem?_append_right (by omega), hlength, ← hfst, List.map_map, List.getElem?_map,
        Option.map_eq_some_iff] at hk
      obtain ⟨x, hx, rfl⟩ := hk
      rw [List.getElem?_append_right hge, readings, List.getElem?_map, hx, Option.map_some]
      obtain ⟨hmem, -⟩ := List.mem_filter.mp (List.mem_of_getElem? hx)
      obtain ⟨m', hm'⟩ := List.mem_iff_getElem?.mp hmem
      obtain ⟨hrow, hbirth⟩ := List.getElem?_zip_eq_some.mp hm'
      -- Its number is one row's.
      have hnodup : (t.node.outbox.map OutboxEntry.id).Nodup :=
        List.pairwise_map.mpr ((List.pairwise_map.mp h.stamped.ids).imp Nat.ne_of_lt)
      have hids : (t.node.outbox.map OutboxEntry.id)[m']? = some x.1.id := by
        rw [List.getElem?_map, hrow, Option.map_some]
      have hsame : m' = m := 
        (List.getElem?_inj (List.getElem?_eq_some_iff.mp hids).1 hnodup).mp (hids.trans hm.symm)
      rw [← hsame, hbirth]

/-- A drain comes to a row. -/
theorem Paired.came (h : t.Paired) (k : ℕ) (sent : Bool) (now : String) (w : Write) :
    Paired { t with
      node := t.node.drained k sent now w
      reading := t.reading.eraseIdx k } := by
  have hkeys := Node.keys_drained (n := t.node) k sent now w
  have hdraining : (t.node.drained k sent now w).draining = t.node.draining.eraseIdx k := by
    rw [Node.drained]
    split
    · rename_i hnone
      rw [List.getElem?_eq_none_iff] at hnone
      exact (List.eraseIdx_of_length_le hnone).symm
    · split <;> rfl
  have hids := ids_of_keys hkeys
  refine ⟨h.stamped.congr hkeys, ?_, ?_, fun j m i hj hm => ?_⟩
  · rw [h.births]
    simpa using (congrArg List.length hids).symm
  · dsimp only
    rw [hdraining, List.length_eraseIdx, List.length_eraseIdx, h.reading]
  · dsimp only at hj hm ⊢
    rw [hids] at hm
    rw [hdraining, ← List.eraseIdx_map, List.getElem?_eraseIdx] at hj
    rw [List.getElem?_eraseIdx]
    split at hj
    · rename_i hbefore
      rw [if_pos hbefore]
      exact h.same j m i hj hm
    · rename_i hafter
      rw [if_neg hafter]
      exact h.same (j + 1) m i hj hm

/-- **One operation** keeps rows and records together. -/
theorem Paired.step (h : t.Paired) (i : Node.Input) (hfresh : t.Fresh blobRoot i) :
    (t.step blobRoot host i).1.Paired := by
  cases i with
  | queue path dest name now w =>
    dsimp only [Tracked.step, Node.step]
    cases hadds : t.node.adds blobRoot path dest w with
    | true =>
      obtain ⟨e, hid, -, hstamp, hqueue⟩ := Node.queueArtifact_of_adds name now hadds
      rw [hqueue]
      exact h.added hid hstamp (hfresh hadds) _
    | false =>
      obtain ⟨o, hqueue, hnone⟩ := Node.queueArtifact_of_not_adds name now hadds
      rw [hqueue]
      cases o with
      | queued e => cases hnone
      | _ => exact h
  | cancel id w =>
    dsimp only [Tracked.step, Node.step]
    rw [outboxCancel]
    split
    · exact h
    · rename_i e hfind
      split
      · exact h
      · cases w with
        | failed => exact h
        | made =>
          obtain rfl : e.id = id := by simpa using List.find?_some hfind
          exact h.erased (List.mem_of_find?_eq_some hfind)
  | plug s psk w =>
    exact h.congr (Node.keys_processPlug h.stamped s psk) (draining_processPlug _ _ _ _ _ _)
  | hear r ledgerWrite outboxWrite =>
    exact h.congr (Node.keys_ledgerHearReceipt r ledgerWrite outboxWrite)
      (draining_ledgerHearReceipt _ _ _ _)
  | drain => exact h.drained
  | drained k sent now w => exact h.came k sent now w
  | change path source => exact h.congr rfl rfl

/-! ### What a drain marks -/

/-- Marking the first row that passes a test. -/
theorem getElem?_lookmap {α : Type*} {p : α → Prop} [DecidablePred p] {f : α → α} (l : List α)
    (m : ℕ) : (l.lookmap fun x => if p x then some (f x) else none)[m]? = l[m]? ∨
      ∃ x, l[m]? = some x ∧ p x ∧
        (l.lookmap fun x => if p x then some (f x) else none)[m]? = some (f x) := by
  induction l generalizing m with
  | nil => exact .inl rfl
  | cons y l ih =>
    by_cases hy : p y
    · rw [List.lookmap_cons_some (fun x => if p x then some (f x) else none) l (if_pos hy)]
      cases m with
      | zero => exact .inr ⟨y, rfl, hy, rfl⟩
      | succ m => exact .inl rfl
    · rw [List.lookmap_cons_none (fun x => if p x then some (f x) else none) l (if_neg hy)]
      cases m with
      | zero => exact .inl rfl
      | succ m => exact ih m

theorem Paired.marksOwn (h : t.Paired) (i : Node.Input) : t.MarksOwn blobRoot host i := by
  cases i with
  | drained k sent now w =>
    refine ⟨?_, fun m => ?_⟩
    · have hids := ids_of_keys (Node.keys_drained (n := t.node) k sent now w)
      change (t.node.drained k sent now w).outbox.length = _
      simpa using congrArg List.length hids
    · change (t.node.drained k sent now w).outbox[m]? = _ ∨ _ ∧ _ ∧ ∃ e, _ ∧
        (t.node.drained k sent now w).outbox[m]? = _
      rw [Node.drained]
      split
      · exact .inl rfl
      · rename_i entry hentry
        split
        · rename_i hsent
          cases w with
          | failed => exact .inl rfl
          | made =>
            refine (getElem?_lookmap (p := fun e : OutboxEntry => e.id = entry.id)
              t.node.outbox m).imp_right ?_
            rintro ⟨e, he, hid, hmarked⟩
            refine ⟨hsent, (h.same k m entry.id ?_ ?_).symm, e, he, hmarked⟩
            · rw [List.getElem?_map, hentry, Option.map_some]
            · rw [List.getElem?_map, he, Option.map_some, hid]
        · exact .inl rfl
  | _ => trivial

end Tracked

end ApexOS.Courier
