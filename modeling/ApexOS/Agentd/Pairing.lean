import ApexOS.Agentd.Goal
import ApexOS.Lib.Run
import ApexOS.Lib.Words

/-!
# Pairing two nodes

A node shows a code; another node claims it. Before the first one hands out a credential it calls
the claimer back at the address that the claim gives, with the claim's nonce; the claimer answers
only if it has a redeem of that nonce under way. Each mints what the other has to present.

A node is a machine: its handlers are interleaved at the calls they make, the clock and what is
minted come with the inputs, and what the network answers is an input like any other. That the file
of the peers is written, and that a request fails on the way, is not here.

## Main definitions

* `Node.step`: the handlers
* `Offered`: what the past says of the code that is shown
* `Granted`: how a credential came to be minted

## Main results

* `claim_accepted_iff`: when a claim is accepted, by the past alone
* `inbound_granted`: who is taken for a peer has been granted a credential by this node
* `exchange`: two nodes that follow the protocol end with each other's credentials
-/

namespace ApexOS.Agentd.Pairing

/-- `PeerRole`. -/
inductive PeerRole
  | full
  | sensor
  | thin
  deriving DecidableEq, Repr

/-- `PeerRecord`. -/
structure PeerRecord where
  nodeId : String
  wsUrl : String
  role : PeerRole
  status : String
  token : Option String
  inboundToken : Option String
  radioId : Option UInt16
  deriving DecidableEq

/-! ### The registry -/

/-- `PeerRegistry::add`. -/
def add (record : PeerRecord) : List PeerRecord → List PeerRecord
  | [] => [record]
  | p :: peers => if p.nodeId = record.nodeId then record :: peers else p :: add record peers

/-- `PeerRegistry::remove`. -/
def remove (nodeId : String) (peers : List PeerRecord) : List PeerRecord :=
  peers.filter fun p => p.nodeId ≠ nodeId

/-- `PeerRegistry::peer_id_for_inbound_token`. -/
def peerIdForInboundToken (peers : List PeerRecord) (token : String) : Option String :=
  if token = "" then none
  else peers.foldl
    (fun found p => if p.inboundToken = some token then some p.nodeId else found) none

/-- The peer that a handler finds under an id. -/
def findPeer (peers : List PeerRecord) (nodeId : String) : Option PeerRecord :=
  peers.find? fun p => p.nodeId = nodeId

/-! ### What the texts have to be -/

/-- `str::trim`. -/
def trim (s : String) : String := String.ofList (Words.trim isWhitespace s.toList)

/-- `is_mesh_token_shape`. -/
def isMeshTokenShape (s : String) : Bool :=
  s.utf8ByteSize = 64 && s.toList.all fun c =>
    c.isDigit || ('a' ≤ c && c ≤ 'f') || ('A' ≤ c && c ≤ 'F')

/-- `is_node_admin_token`. -/
def isNodeAdminToken (candidate admin : String) : Bool :=
  candidate ≠ "" && admin ≠ "" && candidate = admin

/-- `mesh_http_base`. -/
def meshHttpBase (wsUrl : String) : Option String := do
  let s := Words.trim isWhitespace wsUrl.toList
  let http ← match s.dropPrefix? "ws://".toList with
    | some rest => some ("http://".toList ++ rest)
    | none =>
      match s.dropPrefix? "wss://".toList with
      | some rest => some ("https://".toList ++ rest)
      | none =>
        if "http://".toList.isPrefixOf s || "https://".toList.isPrefixOf s then some s else none
  let rest ← (http.dropPrefix? "https://".toList).or (http.dropPrefix? "http://".toList)
  let host := rest.takeWhile (· ≠ '/')
  if host = [] || host.contains '@' || host.contains ' ' then none
  else some (String.ofList (http.rdropWhile (· = '/')))

/-! ### A node -/

def second : ℕ := 1000000000

/-- `PAIR_TTL_SECS`. -/
def pairTtl : ℕ := 300 * second

/-- `PAIR_MAX_ATTEMPTS`. -/
def pairMaxAttempts : ℕ := 5

/-- How long a redeem may wait for its confirmation. -/
def flightTtl : ℕ := 30 * second

/-- `Pairing`. -/
structure Offer where
  code : String
  expiresAt : ℕ
  attempts : ℕ
  deriving DecidableEq

/-- `RedeemFlight`. -/
structure RedeemFlight where
  peerHttp : String
  nonce : String
  expiresAt : ℕ
  deriving DecidableEq

/-- A claim that was accepted and waits for the claimer's answer. -/
structure Claimer where
  nodeId : String
  wsUrl : String
  deriving DecidableEq

/-- A redeem that waits for the answer to its claim. -/
structure Redeemer where
  peerWs : String
  nonce : String
  deriving DecidableEq

/-- What a node is configured with. -/
structure Config where
  nodeId : String
  ownWsUrl : String
  apiToken : String

structure Node where
  pairing : Option Offer
  flight : Option RedeemFlight
  peers : List PeerRecord
  claims : List Claimer
  redeems : List Redeemer

/-- What a handler is given. -/
inductive Input
  | start (now : ℕ) (code : String)
  | claim (now : ℕ) (code nodeId wsUrl nonce : String)
  | answered (k : ℕ) (token : Option String) (minted : String)
  | confirm (now : ℕ) (nodeId wsUrl nonce minted : String)
  | redeem (now : ℕ) (peerWs code : String) (selfWs : Option String) (nonce : String)
  | claimed (k : ℕ) (reply : Option (String × Option String × String))
  | post (nodeId wsUrl : String) (role : PeerRole) (token : Option String)
  | delete (nodeId : String)
  deriving DecidableEq

/-- What it answers, or the call that it makes. -/
inductive Answer
  | code (code : String)
  | missingFields
  | invalidUrl
  | forbidden
  | calls (url nodeId wsUrl nonce : String)
  | badGateway
  | granted (toNode token : String)
  | claims (url code nodeId wsUrl nonce : String)
  | rejected
  | done
  deriving DecidableEq

namespace Node

variable (config : Config) (n : Node)

/-- The credential that a claim's answer may bring. -/
def acceptable (token : String) : Bool :=
  isMeshTokenShape token && !isNodeAdminToken token config.apiToken

def step : Input → Node × Answer
  -- `pair_start_handler`
  | .start now code => ({ n with pairing := some ⟨code, now + pairTtl, 0⟩ }, .code code)
  -- `pair_claim_handler`, up to its call
  | .claim now code nodeId wsUrl nonce =>
    if code = "" || trim nodeId = "" || trim wsUrl = "" || trim nonce = "" then (n, .missingFields)
    else match meshHttpBase (trim wsUrl) with
      | none => (n, .invalidUrl)
      | some url =>
        match n.pairing with
        | none => (n, .forbidden)
        | some offer =>
          if offer.expiresAt ≤ now then ({ n with pairing := none }, .forbidden)
          else if offer.code = code then
            ({ n with pairing := none, claims := n.claims ++ [⟨trim nodeId, trim wsUrl⟩] },
              .calls url config.nodeId config.ownWsUrl (trim nonce))
          else if pairMaxAttempts ≤ offer.attempts + 1 then
            ({ n with pairing := none }, .forbidden)
          else ({ n with pairing := some ⟨offer.code, offer.expiresAt, offer.attempts + 1⟩ },
            .forbidden)
  -- and what it does with the answer
  | .answered k token minted =>
    match n.claims[k]? with
    | none => (n, .done)
    | some claimer =>
      let n' := { n with claims := n.claims.eraseIdx k }
      if acceptable config (token.getD "") then
        ({ n' with peers := add ⟨claimer.nodeId, claimer.wsUrl, .full, "online",
            some (token.getD ""), some minted, none⟩ n.peers }, .granted claimer.nodeId minted)
      else (n', .badGateway)
  -- `pair_confirm_handler`
  | .confirm now nodeId wsUrl nonce minted =>
    if nonce = "" || trim nodeId = "" then (n, .missingFields)
    else match n.flight with
      | none => (n, .forbidden)
      | some flight =>
        if now < flight.expiresAt && flight.nonce = nonce then
          let n' := { n with flight := none }
          if trim wsUrl = "" then (n', .granted (trim nodeId) minted)
          else
            let known := findPeer n.peers (trim nodeId)
            ({ n' with peers := add ⟨trim nodeId, trim wsUrl, .full, "online",
                known.bind (·.token), some minted, known.bind (·.radioId)⟩ n.peers },
              .granted (trim nodeId) minted)
        else (n, .forbidden)
  -- `pair_redeem_handler`, up to its call
  | .redeem now peerWs code selfWs nonce =>
    if peerWs = "" || code = "" then (n, .missingFields)
    else match meshHttpBase peerWs with
      | none => (n, .invalidUrl)
      | some url =>
        let selfWs := ((selfWs.map trim).filter (· ≠ "")).getD config.ownWsUrl
        if meshHttpBase selfWs = none then (n, .invalidUrl)
        else
          ({ n with
              flight := some ⟨url, nonce, now + flightTtl⟩
              redeems := n.redeems ++ [⟨peerWs, nonce⟩] },
            .claims url code config.nodeId selfWs nonce)
  -- and what it does with the answer
  | .claimed k reply =>
    match n.redeems[k]? with
    | none => (n, .done)
    | some redeemer =>
      let n' := { n with
        redeems := n.redeems.eraseIdx k
        flight := n.flight.filter fun flight => flight.nonce ≠ redeemer.nonce }
      match reply with
      | none => (n', .rejected)
      | some (nodeId, wsUrl, token) =>
        if nodeId ≠ "" && acceptable config token then
          let known := findPeer n.peers nodeId
          ({ n' with peers := add ⟨nodeId, wsUrl.getD redeemer.peerWs, .full, "online", some token,
              known.bind (·.inboundToken), known.bind (·.radioId)⟩ n.peers }, .done)
        else (n', .rejected)
  -- `mesh_peers_post_handler`
  | .post nodeId wsUrl role token =>
    let token := token.filter (· ≠ "")
    if nodeId = "" || wsUrl = "" then (n, .missingFields)
    else if token.any fun t => isNodeAdminToken t config.apiToken then (n, .rejected)
    else
      let known := findPeer n.peers nodeId
      ({ n with peers := add ⟨nodeId, wsUrl, role, "online", token.or (known.bind (·.token)),
          known.bind (·.inboundToken), none⟩ n.peers }, .done)
  -- `mesh_peers_delete_handler`
  | .delete nodeId => ({ n with peers := remove nodeId n.peers }, .done)

end Node

/-! ### The code that is shown -/

section

variable (config : Config)

abbrev Past := List (Input × Answer)

/-- A claim that is whole, at a time. -/
def claimAt : Input → Option ℕ
  | .claim now code nodeId wsUrl nonce =>
    if code = "" || trim nodeId = "" || trim wsUrl = "" || trim nonce = "" then none
    else (meshHttpBase (trim wsUrl)).map fun _ => now
  | _ => none

/-- A claim that was refused. -/
def isRefused (x : Input × Answer) : Bool := (claimAt x.1).isSome && x.2 = .forbidden

/-- What leaves a code that is shown until `expiresAt` as it is, or counts against it. -/
def Spares (expiresAt : ℕ) (x : Input × Answer) : Prop :=
  (∀ now code, x.1 ≠ .start now code) ∧
    ∀ now, claimAt x.1 = some now → x.2 = .forbidden ∧ now < expiresAt

/-- **The code that is shown**, by the past: it was shown and no other since, no claim has been
accepted since or came too late, and fewer than five were refused. -/
def Offered (past : Past) (code : String) (shown refused : ℕ) : Prop :=
  ∃ l₁ out l₂, past = l₁ ++ (.start shown code, out) :: l₂ ∧
    (∀ x ∈ l₂, Spares (shown + pairTtl) x) ∧ l₂.countP isRefused = refused ∧
    refused < pairMaxAttempts

theorem not_offered_nil {code : String} {shown refused : ℕ} : ¬ Offered [] code shown refused := by
  rintro ⟨l₁, out, l₂, h, -⟩
  simp at h

theorem offered_concat {past : Past} {x : Input × Answer} {code : String} {shown refused : ℕ} :
    Offered (past ++ [x]) code shown refused ↔
      (x.1 = .start shown code ∧ refused = 0) ∨ (Spares (shown + pairTtl) x ∧
        refused < pairMaxAttempts ∧ ∃ m, Offered past code shown m ∧
          refused = m + if isRefused x then 1 else 0) := by
  constructor
  · rintro ⟨l₁, out, l₂, h, hspares, hcount, hlt⟩
    rcases List.eq_nil_or_concat l₂ with rfl | ⟨l₂, y, rfl⟩
    · obtain ⟨-, hx⟩ := List.append_inj' h rfl
      obtain rfl : x = (.start shown code, out) := by simpa using hx
      exact .inl ⟨rfl, hcount.symm⟩
    · rw [List.concat_eq_append] at h hspares hcount
      rw [← List.cons_append, ← List.append_assoc] at h
      obtain ⟨hpast, hx⟩ := List.append_inj' h rfl
      obtain rfl : x = y := by simpa using hx
      rw [List.countP_append, List.countP_singleton] at hcount
      refine .inr ⟨hspares x (by simp), hlt, l₂.countP isRefused, ⟨l₁, out, l₂, hpast,
        fun y hy => hspares y (List.mem_append_left _ hy), rfl, ?_⟩, hcount.symm⟩
      omega
  · rintro (⟨hx, rfl⟩ | ⟨hx, hlt, m, ⟨l₁, out, l₂, rfl, hspares, rfl, -⟩, rfl⟩)
    · obtain ⟨i, out⟩ := x
      obtain rfl : i = .start shown code := hx
      exact ⟨past, out, [], rfl, fun _ h => absurd h List.not_mem_nil, rfl, by decide⟩
    · refine ⟨l₁, out, l₂ ++ [x], by simp, fun y hy => ?_, ?_, hlt⟩
      · obtain hy | hy := List.mem_append.mp hy
        · exact hspares y hy
        · rwa [List.mem_singleton.mp hy]
      · rw [List.countP_append, List.countP_singleton]

/-- What a node shows is what its past says. -/
structure Shows (past : Past) (n : Node) : Prop where
  offered : ∀ code shown refused, Offered past code shown refused ↔
    n.pairing = some ⟨code, shown + pairTtl, refused⟩
  timed : ∀ offer, n.pairing = some offer → ∃ shown, offer.expiresAt = shown + pairTtl

variable {config}

theorem offered_concat_other {past : Past} {i : Input} (out : Answer) (hclaim : claimAt i = none)
    (hstart : ∀ now code, i ≠ .start now code) {code : String} {shown refused : ℕ} :
    Offered (past ++ [(i, out)]) code shown refused ↔ Offered past code shown refused := by
  have hrefused : isRefused (i, out) = false := by rw [isRefused, hclaim]; rfl
  have hspares : Spares (shown + pairTtl) (i, out) :=
    ⟨hstart, fun now h => by cases hclaim.symm.trans h⟩
  rw [offered_concat, hrefused]
  constructor
  · rintro (⟨h, -⟩ | ⟨-, -, m, hm, rfl⟩)
    · exact absurd h (hstart _ _)
    · exact hm
  · intro h
    obtain ⟨_, _, _, _, _, _, hlt⟩ := id h
    exact .inr ⟨hspares, hlt, refused, h, rfl⟩

theorem Shows.other {past : Past} {n n' : Node} (h : Shows past n) {i : Input} (out : Answer)
    (hclaim : claimAt i = none) (hstart : ∀ now code, i ≠ .start now code)
    (hn : n'.pairing = n.pairing) : Shows (past ++ [(i, out)]) n' where
  offered code shown refused := by
    rw [offered_concat_other out hclaim hstart, hn]
    exact h.offered code shown refused
  timed offer hoffer := h.timed offer (hn ▸ hoffer)

theorem Shows.start {past : Past} {n : Node} (now : ℕ) (code : String) (out : Answer) :
    Shows (past ++ [(.start now code, out)])
      { n with pairing := some ⟨code, now + pairTtl, 0⟩ } where
  offered code' shown refused := by
    rw [offered_concat]
    constructor
    · rintro (⟨h, rfl⟩ | ⟨⟨h, -⟩, -⟩)
      · cases h
        rfl
      · exact absurd rfl (h now code)
    · intro h
      obtain ⟨rfl, hshown, rfl⟩ := Offer.mk.inj (Option.some.inj h)
      obtain rfl : now = shown := Nat.add_right_cancel hshown
      exact .inl ⟨rfl, rfl⟩
  timed offer hoffer := ⟨now, by rw [← Option.some.inj hoffer]⟩

/-- A whole claim that is accepted, or finds nothing that it could match, ends the offer. -/
theorem Shows.ended {past : Past} {n : Node} {i : Input} {out : Answer} {now : ℕ}
    (hn : n.pairing = none) (hclaim : claimAt i = some now)
    (hnot : ∀ code shown m, Offered past code shown m → out = .forbidden →
      now < shown + pairTtl → pairMaxAttempts ≤ m + 1) :
    Shows (past ++ [(i, out)]) n where
  offered code shown refused := by
    refine iff_of_false ?_ (by rw [hn]; rintro ⟨⟩)
    rw [offered_concat]
    rintro (⟨rfl, -⟩ | ⟨⟨-, hspares⟩, hlt, m, hm, rfl⟩)
    · cases hclaim
    · obtain ⟨hout, htime⟩ := hspares now hclaim
      have hrefused : isRefused (i, out) = true := by
        rw [isRefused, hclaim]
        exact decide_eq_true hout
      rw [if_pos hrefused] at hlt
      exact absurd (hnot code shown m hm hout htime) (not_le.mpr hlt)
  timed _ h := by cases hn.symm.trans h

/-- A wrong guess counts. -/
theorem Shows.refused {past : Past} {n : Node} (h : Shows past n) {offer : Offer}
    (hpairing : n.pairing = some offer) {i : Input} {now : ℕ} (hclaim : claimAt i = some now)
    (hlive : now < offer.expiresAt) (hfew : offer.attempts + 1 < pairMaxAttempts) :
    Shows (past ++ [(i, .forbidden)])
      { n with pairing := some ⟨offer.code, offer.expiresAt, offer.attempts + 1⟩ } where
  offered code shown refused := by
    have hrefused : isRefused (i, .forbidden) = true := by
      rw [isRefused, hclaim]
      rfl
    rw [offered_concat, if_pos hrefused]
    constructor
    · rintro (⟨rfl, -⟩ | ⟨-, -, m, hm, rfl⟩)
      · cases hclaim
      · cases hpairing.symm.trans ((h.offered code shown m).mp hm)
        rfl
    · intro hnew
      obtain ⟨rfl, hshown, rfl⟩ := Offer.mk.inj (Option.some.inj hnew)
      have hm : Offered past offer.code shown offer.attempts :=
        (h.offered _ _ _).mpr (by rw [hpairing, ← hshown])
      refine .inr ⟨⟨?_, ?_⟩, hfew, offer.attempts, hm, rfl⟩
      · rintro _ _ rfl
        cases hclaim
      · intro now' hnow'
        obtain rfl := Option.some.inj (hclaim.symm.trans hnow')
        exact ⟨rfl, hshown ▸ hlive⟩
  timed offer' hoffer' := by
    obtain ⟨shown, hshown⟩ := h.timed offer hpairing
    exact ⟨shown, by rw [← Option.some.inj hoffer']; exact hshown⟩

theorem claimAt_claim {now : ℕ} {code nodeId wsUrl nonce url : String}
    (hfields : ¬ (code = "" || trim nodeId = "" || trim wsUrl = "" || trim nonce = "") = true)
    (hurl : meshHttpBase (trim wsUrl) = some url) :
    claimAt (.claim now code nodeId wsUrl nonce) = some now := by
  rw [claimAt, if_neg hfields, hurl]
  rfl

theorem shows_step {past : Past} {n : Node} (h : Shows past n) (i : Input) :
    Shows (past ++ [(i, (n.step config i).2)]) (n.step config i).1 := by
  cases i with
  | start now code => exact .start now code _
  | claim now code nodeId wsUrl nonce =>
    simp only [Node.step]
    by_cases hfields : (code = "" || trim nodeId = "" || trim wsUrl = "" || trim nonce = "") = true
    · rw [if_pos hfields]
      exact h.other _ (by rw [claimAt, if_pos hfields]) (by rintro _ _ ⟨⟩) rfl
    rw [if_neg hfields]
    cases hurl : meshHttpBase (trim wsUrl) with
    | none => exact h.other _ (by rw [claimAt, if_neg hfields, hurl]; rfl) (by rintro _ _ ⟨⟩) rfl
    | some url =>
      have hclaim : claimAt (.claim now code nodeId wsUrl nonce) = some now :=
        claimAt_claim hfields hurl
      cases hpairing : n.pairing with
      | none =>
        refine .ended hpairing hclaim fun code shown m hm => ?_
        cases hpairing.symm.trans ((h.offered code shown m).mp hm)
      | some offer =>
        have hoffer : ∀ code shown m, Offered past code shown m →
            offer = ⟨code, shown + pairTtl, m⟩ := fun code shown m hm =>
          Option.some.inj (hpairing.symm.trans ((h.offered code shown m).mp hm))
        simp only
        split
        · rename_i hexpired
          refine .ended rfl hclaim fun code shown m hm _ htime => ?_
          rw [hoffer code shown m hm] at hexpired
          exact absurd hexpired (not_le.mpr htime)
        · rename_i hlive
          split
          · refine .ended rfl hclaim fun _ _ _ _ hout _ => ?_
            cases hout
          · split
            · rename_i hmany
              refine .ended rfl hclaim fun code shown m hm _ _ => ?_
              rw [hoffer code shown m hm] at hmany
              exact hmany
            · rename_i hfew
              exact h.refused hpairing hclaim (not_le.mp hlive) (not_le.mp hfew)
  | answered k token minted =>
    refine h.other _ rfl (by rintro _ _ ⟨⟩) ?_
    simp only [Node.step]
    split
    · rfl
    · split <;> rfl
  | confirm now nodeId wsUrl nonce minted =>
    refine h.other _ rfl (by rintro _ _ ⟨⟩) ?_
    simp only [Node.step]
    split
    · rfl
    · split
      · rfl
      · split
        · split <;> rfl
        · rfl
  | redeem now peerWs code selfWs nonce =>
    refine h.other _ rfl (by rintro _ _ ⟨⟩) ?_
    simp only [Node.step]
    split
    · rfl
    · split
      · rfl
      · split <;> rfl
  | claimed k reply =>
    refine h.other _ rfl (by rintro _ _ ⟨⟩) ?_
    simp only [Node.step]
    split
    · rfl
    · split
      · rfl
      · split <;> rfl
  | post nodeId wsUrl role token =>
    refine h.other _ rfl (by rintro _ _ ⟨⟩) ?_
    simp only [Node.step]
    split
    · rfl
    · split <;> rfl
  | delete nodeId => exact h.other _ rfl (by rintro _ _ ⟨⟩) rfl

/-- A node that has nothing under way. -/
def Node.Idle (n : Node) : Prop :=
  n.pairing = none ∧ n.flight = none ∧ n.claims = [] ∧ n.redeems = []

theorem shows_idle {n : Node} (h : n.Idle) : Shows [] n where
  offered code shown refused := by
    refine iff_of_false not_offered_nil ?_
    rw [h.1]
    rintro ⟨⟩
  timed offer hoffer := by cases h.1.symm.trans hoffer

theorem shows_final (config : Config) {n : Node} (hidle : n.Idle) (es : List Input) :
    Shows (Run.log (Node.step config) n es) (Run.final (Node.step config) n es) := by
  refine Run.invariant (I := Shows) (shows_idle hidle) ?_ (Run.Always.true es)
  exact fun _ _ i h _ => shows_step h i

/-- What is asked of a claim besides its code. -/
def WholeClaim (code nodeId wsUrl nonce url : String) : Prop :=
  code ≠ "" ∧ trim nodeId ≠ "" ∧ trim wsUrl ≠ "" ∧ trim nonce ≠ "" ∧
    meshHttpBase (trim wsUrl) = some url

theorem fields_iff {code nodeId wsUrl nonce : String} :
    ¬ (code = "" || trim nodeId = "" || trim wsUrl = "" || trim nonce = "") = true ↔
      code ≠ "" ∧ trim nodeId ≠ "" ∧ trim wsUrl ≠ "" ∧ trim nonce ≠ "" := by
  simp [not_or, and_assoc]

/-- When a claim is accepted, by what is shown. -/
theorem claim_calls_iff {n : Node} {now : ℕ} {code nodeId wsUrl nonce : String}
    {url : String} : (n.step config (.claim now code nodeId wsUrl nonce)).2 =
        .calls url config.nodeId config.ownWsUrl (trim nonce) ↔
      WholeClaim code nodeId wsUrl nonce url ∧ ∃ offer, n.pairing = some offer ∧
        offer.code = code ∧ now < offer.expiresAt := by
  simp only [Node.step]
  by_cases hfields : (code = "" || trim nodeId = "" || trim wsUrl = "" || trim nonce = "") = true
  · rw [if_pos hfields]
    refine iff_of_false (by rintro ⟨⟩) ?_
    rintro ⟨⟨h₁, h₂, h₃, h₄, -⟩, -⟩
    exact fields_iff.mpr ⟨h₁, h₂, h₃, h₄⟩ hfields
  obtain ⟨h₁, h₂, h₃, h₄⟩ := fields_iff.mp hfields
  rw [if_neg hfields]
  cases hurl : meshHttpBase (trim wsUrl) with
  | none =>
    refine iff_of_false (by rintro ⟨⟩) ?_
    rintro ⟨⟨-, -, -, -, h⟩, -⟩
    cases hurl.symm.trans h
  | some url' =>
    cases hpairing : n.pairing with
    | none =>
      refine iff_of_false (by rintro ⟨⟩) ?_
      rintro ⟨-, offer, h, -⟩
      cases h
    | some offer =>
      simp only
      split
      · rename_i hexpired
        refine iff_of_false (by rintro ⟨⟩) ?_
        rintro ⟨-, offer', h, -, htime⟩
        cases h
        exact absurd hexpired (not_le.mpr htime)
      · rename_i hlive
        split
        · rename_i hcode
          constructor
          · intro h
            obtain ⟨rfl, -⟩ := Answer.calls.inj h
            exact ⟨⟨h₁, h₂, h₃, h₄, hurl⟩, offer, rfl, hcode, not_le.mp hlive⟩
          · rintro ⟨⟨-, -, -, -, h⟩, -⟩
            obtain rfl := Option.some.inj (hurl.symm.trans h)
            rfl
        · rename_i hcode
          have hno : ¬ ∃ o, some offer = some o ∧ o.code = code ∧ now < o.expiresAt := by
            rintro ⟨o, ho, h, -⟩
            cases ho
            exact hcode h
          split
          · exact iff_of_false (by rintro ⟨⟩) fun h => hno h.2
          · exact iff_of_false (by rintro ⟨⟩) fun h => hno h.2

/-- **A code is good for one claim, for five minutes and for four wrong guesses**: when a claim is
accepted, by what the node was given before. -/
theorem claim_accepted_iff (config : Config) (n : Node) (hidle : n.Idle) (es : List Input)
    (now : ℕ) (code nodeId wsUrl nonce url : String) :
    ((Run.final (Node.step config) n es).step config (.claim now code nodeId wsUrl nonce)).2 =
        .calls url config.nodeId config.ownWsUrl (trim nonce) ↔
      WholeClaim code nodeId wsUrl nonce url ∧ ∃ shown refused,
        Offered (Run.log (Node.step config) n es) code shown refused ∧ now < shown + pairTtl := by
  have hshows := shows_final config hidle es
  rw [claim_calls_iff]
  refine and_congr_right fun _ => ?_
  constructor
  · rintro ⟨offer, hoffer, rfl, htime⟩
    obtain ⟨shown, hshown⟩ := hshows.timed offer hoffer
    refine ⟨shown, offer.attempts, (hshows.offered _ _ _).mpr ?_, hshown ▸ htime⟩
    rw [hoffer, ← hshown]
  · rintro ⟨shown, refused, hoffered, htime⟩
    exact ⟨_, (hshows.offered _ _ _).mp hoffered, rfl, htime⟩

end

/-- A node that was just set up. -/
def Node.new : Node := ⟨none, none, [], [], []⟩

/-- Two nodes on a desk. -/
def kitchen : Config := ⟨"kitchen", "ws://10.0.0.1:8787", "admin"⟩

def cellar : Config := ⟨"cellar", "ws://10.0.0.2:8787", "admin"⟩

theorem claim_accepted_iff_kitchen :
    ((Run.final (Node.step kitchen) .new [.start 0 "123456"]).step kitchen
        (.claim 1 "123456" "cellar" "ws://10.0.0.2:8787" "n")).2 =
        .calls "http://10.0.0.2:8787" kitchen.nodeId kitchen.ownWsUrl (trim "n") ↔
      WholeClaim "123456" "cellar" "ws://10.0.0.2:8787" "n" "http://10.0.0.2:8787" ∧
        ∃ shown refused, Offered (Run.log (Node.step kitchen) .new [.start 0 "123456"])
          "123456" shown refused ∧ 1 < shown + pairTtl :=
  claim_accepted_iff kitchen .new ⟨rfl, rfl, rfl, rfl⟩ _ _ _ _ _ _ _

/-! ### Who is taken for a peer -/

section

theorem mem_add {record q : PeerRecord} {peers : List PeerRecord} (h : q ∈ add record peers) :
    q = record ∨ q ∈ peers := by
  induction peers with
  | nil => exact .inl (List.mem_singleton.mp h)
  | cons p peers ih =>
    rw [add] at h
    split at h
    · exact (List.mem_cons.mp h).imp_right (List.mem_cons_of_mem p)
    · obtain rfl | h := List.mem_cons.mp h
      · exact .inr List.mem_cons_self
      · exact (ih h).imp_right (List.mem_cons_of_mem p)

theorem findPeer_eq_some {peers : List PeerRecord} {nodeId : String} {p : PeerRecord}
    (h : findPeer peers nodeId = some p) : p ∈ peers ∧ p.nodeId = nodeId :=
  ⟨List.mem_of_find?_eq_some h, by simpa using List.find?_some h⟩

theorem foldl_inboundToken {peers : List PeerRecord} {token nodeId : String} {found : Option String}
    (h : peers.foldl (fun found p => if p.inboundToken = some token then some p.nodeId else found)
      found = some nodeId) :
    found = some nodeId ∨ ∃ p ∈ peers, p.nodeId = nodeId ∧ p.inboundToken = some token := by
  induction peers generalizing found with
  | nil => exact .inl h
  | cons p peers ih =>
    obtain h | ⟨q, hq, hrest⟩ := ih h
    · beta_reduce at h
      split at h
      · rename_i hp
        exact .inr ⟨p, List.mem_cons_self, Option.some.inj h, hp⟩
      · exact .inl h
    · exact .inr ⟨q, List.mem_cons_of_mem p hq, hrest⟩

theorem exists_of_peerIdForInboundToken {peers : List PeerRecord} {token nodeId : String}
    (h : peerIdForInboundToken peers token = some nodeId) :
    ∃ p ∈ peers, p.nodeId = nodeId ∧ p.inboundToken = some token := by
  rw [peerIdForInboundToken] at h
  split at h
  · cases h
  · obtain h | h := foldl_inboundToken h
    · cases h
    · exact h

/-- A redeem of the nonce began less than half a minute ago. -/
def Redeemed (past : Past) (now : ℕ) (nonce : String) : Prop :=
  ∃ began peerWs code selfWs url code' nodeId wsUrl,
    (.redeem began peerWs code selfWs nonce, .claims url code' nodeId wsUrl nonce) ∈ past ∧
      now < began + flightTtl

/-- A claim of the node's was accepted. -/
def Accepted (past : Past) (nodeId : String) : Prop :=
  ∃ now code nodeId' wsUrl nonce url me myWs nonce',
    (.claim now code nodeId' wsUrl nonce, .calls url me myWs nonce') ∈ past ∧ nodeId = trim nodeId'

/-- **A credential was minted for a node**: it confirmed a redeem of this node's, or claimed the
code that this node showed and answered for itself. -/
def Granted (past : Past) (nodeId token : String) : Prop :=
  ∃ before i after, past = before ++ (i, .granted nodeId token) :: after ∧
    ((∃ now nodeId' wsUrl nonce, i = .confirm now nodeId' wsUrl nonce token ∧
        nodeId = trim nodeId' ∧ Redeemed before now nonce) ∨
      ∃ k answer, i = .answered k answer token ∧ Accepted before nodeId)

theorem Granted.concat {past : Past} {nodeId token : String} (h : Granted past nodeId token)
    (x : Input × Answer) : Granted (past ++ [x]) nodeId token := by
  obtain ⟨before, i, after, rfl, hwhy⟩ := h
  exact ⟨before, i, after ++ [x], by simp, hwhy⟩

theorem Accepted.concat {past : Past} {nodeId : String} (h : Accepted past nodeId)
    (x : Input × Answer) : Accepted (past ++ [x]) nodeId := by
  obtain ⟨now, code, nodeId', wsUrl, nonce, url, me, myWs, nonce', hmem, hid⟩ := h
  exact ⟨now, code, nodeId', wsUrl, nonce, url, me, myWs, nonce', List.mem_append_left _ hmem, hid⟩

/-- A peer's credential was there at the start, or granted. -/
def Known (start : List PeerRecord) (past : Past) (nodeId token : String) : Prop :=
  (∃ p ∈ start, p.nodeId = nodeId ∧ p.inboundToken = some token) ∨ Granted past nodeId token

/-- What a node holds came about as it should. -/
structure Held (start : List PeerRecord) (past : Past) (n : Node) : Prop where
  flight : ∀ flight, n.flight = some flight → ∀ now < flight.expiresAt,
    Redeemed past now flight.nonce
  claims : ∀ c ∈ n.claims, Accepted past c.nodeId
  peers : ∀ p ∈ n.peers, ∀ token, p.inboundToken = some token → Known start past p.nodeId token

variable {config : Config} {start : List PeerRecord} {past : Past} {n : Node}

/-- What a step keeps. -/
theorem Held.step_of (h : Held start past n) {x : Input × Answer} {n' : Node}
    (hflight : ∀ flight, n'.flight = some flight → n.flight = some flight ∨
      ∀ now < flight.expiresAt, Redeemed (past ++ [x]) now flight.nonce)
    (hclaims : ∀ c ∈ n'.claims, c ∈ n.claims ∨ Accepted (past ++ [x]) c.nodeId)
    (hpeers : ∀ p ∈ n'.peers, p ∈ n.peers ∨ ∀ token, p.inboundToken = some token →
      (∃ q ∈ n.peers, q.nodeId = p.nodeId ∧ q.inboundToken = some token) ∨
        Granted (past ++ [x]) p.nodeId token) : Held start (past ++ [x]) n' where
  flight flight hf now hnow := by
    obtain hf | hf := hflight flight hf
    · obtain ⟨began, peerWs, code, selfWs, url, code', nodeId, wsUrl, hmem, htime⟩ :=
        h.flight flight hf now hnow
      exact ⟨began, peerWs, code, selfWs, url, code', nodeId, wsUrl,
        List.mem_append_left _ hmem, htime⟩
    · exact hf now hnow
  claims c hc := (hclaims c hc).elim (fun hc => (h.claims c hc).concat x) id
  peers p hp token ht := by
    have hold : ∀ q ∈ n.peers, q.nodeId = p.nodeId → q.inboundToken = some token →
        Known start (past ++ [x]) p.nodeId token := by
      intro q hq hid hqt
      exact hid ▸ (h.peers q hq token hqt).imp_right fun hg => hg.concat x
    obtain hp | hp := hpeers p hp
    · exact hold p hp rfl ht
    · obtain ⟨q, hq, hid, hqt⟩ | hg := hp token ht
      · exact hold q hq hid hqt
      · exact .inr hg

/-- A record that keeps the credential that is known. -/
theorem known_inboundToken {peers : List PeerRecord} {nodeId token : String}
    (h : (findPeer peers nodeId).bind (·.inboundToken) = some token) :
    ∃ q ∈ peers, q.nodeId = nodeId ∧ q.inboundToken = some token := by
  obtain ⟨q, hq, ht⟩ := Option.bind_eq_some_iff.mp h
  obtain ⟨hmem, hid⟩ := findPeer_eq_some hq
  exact ⟨q, hmem, hid, ht⟩

theorem held_step (h : Held start past n) (i : Input) :
    Held start (past ++ [(i, (n.step config i).2)]) (n.step config i).1 := by
  cases i with
  | start now code => exact h.step_of (fun _ => .inl) (fun _ => .inl) fun _ => .inl
  | claim now code nodeId wsUrl nonce =>
    simp only [Node.step]
    split
    · exact h.step_of (fun _ => .inl) (fun _ => .inl) fun _ => .inl
    · split
      · exact h.step_of (fun _ => .inl) (fun _ => .inl) fun _ => .inl
      · rename_i url _
        split
        · exact h.step_of (fun _ => .inl) (fun _ => .inl) fun _ => .inl
        · split
          · exact h.step_of (fun _ => .inl) (fun _ => .inl) fun _ => .inl
          · split
            · refine h.step_of (fun _ => .inl) (fun c hc => ?_) fun _ => .inl
              obtain hc | hc := List.mem_append.mp hc
              · exact .inl hc
              · rw [List.mem_singleton.mp hc]
                exact .inr ⟨now, code, nodeId, wsUrl, nonce, url, config.nodeId, config.ownWsUrl,
                  trim nonce, List.mem_append_right _ (List.mem_singleton_self _), rfl⟩
            · split <;> exact h.step_of (fun _ => .inl) (fun _ => .inl) fun _ => .inl
  | answered k token minted =>
    simp only [Node.step]
    split
    · exact h.step_of (fun _ => .inl) (fun _ => .inl) fun _ => .inl
    · rename_i claimer hclaimer
      have haccepted := h.claims claimer (List.mem_of_getElem? hclaimer)
      split
      · refine h.step_of (fun _ => .inl) (fun c hc => .inl (List.mem_of_mem_eraseIdx hc))
          fun p hp => ?_
        obtain rfl | hp := mem_add hp
        · refine .inr fun t ht => .inr ?_
          obtain rfl := Option.some.inj ht
          exact ⟨past, _, [], rfl, .inr ⟨k, token, rfl, haccepted⟩⟩
        · exact .inl hp
      · exact h.step_of (fun _ => .inl) (fun c hc => .inl (List.mem_of_mem_eraseIdx hc))
          fun _ => .inl
  | confirm now nodeId wsUrl nonce minted =>
    simp only [Node.step]
    split
    · exact h.step_of (fun _ => .inl) (fun _ => .inl) fun _ => .inl
    · split
      · exact h.step_of (fun _ => .inl) (fun _ => .inl) fun _ => .inl
      · rename_i flight hflight
        split
        · rename_i hmatch
          rw [Bool.and_eq_true, decide_eq_true_eq, decide_eq_true_eq] at hmatch
          obtain ⟨htime, rfl⟩ := hmatch
          have hredeemed := h.flight flight hflight now htime
          split
          · exact h.step_of (fun _ hf => by cases hf) (fun _ => .inl) fun _ => .inl
          · refine h.step_of (fun _ hf => by cases hf) (fun _ => .inl) fun p hp => ?_
            obtain rfl | hp := mem_add hp
            · refine .inr fun t ht => .inr ?_
              obtain rfl := Option.some.inj ht
              exact ⟨past, _, [], rfl, .inl ⟨now, nodeId, wsUrl, _, rfl, rfl, hredeemed⟩⟩
            · exact .inl hp
        · exact h.step_of (fun _ => .inl) (fun _ => .inl) fun _ => .inl
  | redeem now peerWs code selfWs nonce =>
    simp only [Node.step]
    split
    · exact h.step_of (fun _ => .inl) (fun _ => .inl) fun _ => .inl
    · split
      · exact h.step_of (fun _ => .inl) (fun _ => .inl) fun _ => .inl
      · split
        · exact h.step_of (fun _ => .inl) (fun _ => .inl) fun _ => .inl
        · refine h.step_of (fun f hf => .inr fun now' hnow => ?_) (fun _ => .inl) fun _ => .inl
          obtain rfl := Option.some.inj hf
          exact ⟨now, peerWs, code, selfWs, _, _, _, _,
            List.mem_append_right _ (List.mem_singleton_self _), hnow⟩
  | claimed k reply =>
    simp only [Node.step]
    split
    · exact h.step_of (fun _ => .inl) (fun _ => .inl) fun _ => .inl
    · have hflight : ∀ {p : RedeemFlight → Bool} (f), n.flight.filter p = some f →
          n.flight = some f := fun f hf => (Option.filter_eq_some_iff.mp hf).1
      split
      · exact h.step_of (fun f hf => .inl (hflight f hf)) (fun _ => .inl) fun _ => .inl
      · split
        · refine h.step_of (fun f hf => .inl (hflight f hf)) (fun _ => .inl) fun p hp => ?_
          obtain rfl | hp := mem_add hp
          · exact .inr fun token ht => .inl (known_inboundToken ht)
          · exact .inl hp
        · exact h.step_of (fun f hf => .inl (hflight f hf)) (fun _ => .inl) fun _ => .inl
  | post nodeId wsUrl role token =>
    simp only [Node.step]
    split
    · exact h.step_of (fun _ => .inl) (fun _ => .inl) fun _ => .inl
    · split
      · exact h.step_of (fun _ => .inl) (fun _ => .inl) fun _ => .inl
      · refine h.step_of (fun _ => .inl) (fun _ => .inl) fun p hp => ?_
        obtain rfl | hp := mem_add hp
        · exact .inr fun token ht => .inl (known_inboundToken ht)
        · exact .inl hp
  | delete nodeId =>
    exact h.step_of (fun _ => .inl) (fun _ => .inl) fun p hp => .inl (List.mem_filter.mp hp).1

theorem held_idle (h : n.Idle) : Held n.peers [] n where
  flight flight hf := by cases h.2.1.symm.trans hf
  claims c hc := by
    rw [h.2.2.1] at hc
    exact absurd hc List.not_mem_nil
  peers p hp token ht := .inl ⟨p, hp, rfl, ht⟩

/-- **Who is taken for a peer was granted its credential**: by this node, after a redeem that it
began or a claim of the code that it showed, unless the peer was there at the start. -/
theorem inbound_granted (config : Config) (n : Node) (hidle : n.Idle) (es : List Input)
    (token nodeId : String)
    (h : peerIdForInboundToken (Run.final (Node.step config) n es).peers token = some nodeId) :
    Known n.peers (Run.log (Node.step config) n es) nodeId token := by
  have hheld : Held n.peers (Run.log (Node.step config) n es)
      (Run.final (Node.step config) n es) := by
    refine Run.invariant (I := Held n.peers) (held_idle hidle) ?_ (Run.Always.true es)
    exact fun _ _ i h _ => held_step h i
  obtain ⟨p, hp, rfl, ht⟩ := exists_of_peerIdForInboundToken h
  exact hheld.peers p hp token ht

end

theorem inbound_granted_kitchen : Known [] (Run.log (Node.step kitchen) .new
      [.redeem 0 "ws://10.0.0.2:8787" "123456" none "n",
        .confirm 1 "cellar" "ws://10.0.0.2:8787" "n" "t"]) "cellar" "t" :=
  inbound_granted kitchen .new ⟨rfl, rfl, rfl, rfl⟩ _ "t" "cellar" (by decide)

/-! ### Two nodes -/

section

theorem findPeer_add (record : PeerRecord) (peers : List PeerRecord) :
    findPeer (add record peers) record.nodeId = some record := by
  induction peers with
  | nil => simp [findPeer, add]
  | cons p peers ih =>
    rw [add]
    split
    · simp [findPeer]
    · rename_i hne
      rw [findPeer, List.find?_cons_of_neg (by simpa using hne)]
      exact ih

theorem add_add {r r' : PeerRecord} (h : r'.nodeId = r.nodeId) (peers : List PeerRecord) :
    add r (add r' peers) = add r peers := by
  induction peers with
  | nil => simp [add, h]
  | cons p peers ih =>
    simp only [add, h]
    split
    · simp [add, h]
    · rename_i hne
      simp [add, hne, ih]

theorem foldl_inboundToken_of_forall {peers : List PeerRecord} {token : String}
    (h : ∀ p ∈ peers, p.inboundToken ≠ some token) (found : Option String) :
    peers.foldl (fun found p => if p.inboundToken = some token then some p.nodeId else found)
      found = found := by
  induction peers generalizing found with
  | nil => rfl
  | cons p peers ih =>
    rw [List.foldl_cons, if_neg (h p List.mem_cons_self)]
    exact ih (fun q hq => h q (List.mem_cons_of_mem p hq)) found

/-- A new credential is its peer's. -/
theorem peerIdForInboundToken_add {record : PeerRecord} {peers : List PeerRecord} {token : String}
    (htoken : token ≠ "") (hrecord : record.inboundToken = some token)
    (h : ∀ p ∈ peers, p.inboundToken ≠ some token) :
    peerIdForInboundToken (add record peers) token = some record.nodeId := by
  have hfold : ∀ found, (add record peers).foldl
      (fun found p => if p.inboundToken = some token then some p.nodeId else found) found =
        some record.nodeId := by
    induction peers with
    | nil => exact fun found => if_pos hrecord
    | cons p peers ih =>
      intro found
      have hpeers : ∀ q ∈ peers, q.inboundToken ≠ some token :=
        fun q hq => h q (List.mem_cons_of_mem p hq)
      rw [add]
      split
      · rw [List.foldl_cons, if_pos hrecord, foldl_inboundToken_of_forall hpeers]
      · rw [List.foldl_cons]
        exact ih hpeers _
  rw [peerIdForInboundToken, if_neg htoken]
  exact hfold none

/-- A node presents the one credential to another and takes the other one from it. -/
def Paired (n : Node) (nodeId outbound inbound : String) : Prop :=
  (findPeer n.peers nodeId).map (fun p => (p.token, p.inboundToken)) =
      some (some outbound, some inbound) ∧
    peerIdForInboundToken n.peers inbound = some nodeId

theorem paired_add {record : PeerRecord} {n : Node} {peers : List PeerRecord}
    {outbound inbound : String} (hn : n.peers = add record peers) (hne : inbound ≠ "")
    (htoken : record.token = some outbound) (hinbound : record.inboundToken = some inbound)
    (hfresh : ∀ p ∈ peers, p.inboundToken ≠ some inbound) :
    Paired n record.nodeId outbound inbound := by
  rw [Paired, hn, findPeer_add]
  exact ⟨by rw [Option.map_some, htoken, hinbound], peerIdForInboundToken_add hne hinbound hfresh⟩

theorem redeem_eq_claims {config : Config} {n : Node} {now : ℕ} {peerWs code nonce : String}
    {selfWs : Option String} {url code' nodeId wsUrl nonce' : String}
    (h : (n.step config (.redeem now peerWs code selfWs nonce)).2 =
      .claims url code' nodeId wsUrl nonce') :
    (n.step config (.redeem now peerWs code selfWs nonce)).1 =
      { n with
        flight := some ⟨url, nonce, now + flightTtl⟩
        redeems := n.redeems ++ [⟨peerWs, nonce⟩] } := by
  simp only [Node.step] at h ⊢
  split at h
  · cases h
  · rename_i hfields
    rw [if_neg hfields]
    split at h
    · cases h
    · split at h
      · cases h
      · rename_i hself
        rw [if_neg hself]
        obtain ⟨rfl, -⟩ := Answer.claims.inj h
        rfl

theorem claim_eq_calls {config : Config} {n : Node} {now : ℕ} {code nodeId wsUrl nonce : String}
    {url me myWs nonce' : String}
    (h : (n.step config (.claim now code nodeId wsUrl nonce)).2 = .calls url me myWs nonce') :
    (n.step config (.claim now code nodeId wsUrl nonce)).1 =
      { n with
        pairing := none
        claims := n.claims ++ [⟨trim nodeId, trim wsUrl⟩] } ∧ trim nonce ≠ "" := by
  simp only [Node.step] at h ⊢
  split at h
  · cases h
  · rename_i hfields
    refine ⟨?_, (fields_iff.mp hfields).2.2.2⟩
    rw [if_neg hfields]
    split at h
    · cases h
    · split at h
      · cases h
      · split at h
        · cases h
        · rename_i hlive
          rw [if_neg hlive]
          split at h
          · rename_i hcode
            rw [if_pos hcode]
          · split at h <;> cases h

theorem confirm_peers {config : Config} {nodeId wsUrl nonce ta url : String} {now expiresAt : ℕ}
    (n : Node) (hflight : n.flight = some ⟨url, nonce, expiresAt⟩) (htime : now < expiresAt)
    (hnonce : nonce ≠ "") (hid : trim nodeId = nodeId ∧ nodeId ≠ "")
    (hws : trim wsUrl = wsUrl ∧ wsUrl ≠ "") :
    (n.step config (.confirm now nodeId wsUrl nonce ta)).1.redeems = n.redeems ∧
      (n.step config (.confirm now nodeId wsUrl nonce ta)).1.peers =
        add ⟨nodeId, wsUrl, .full, "online", (findPeer n.peers nodeId).bind (·.token), some ta,
          (findPeer n.peers nodeId).bind (·.radioId)⟩ n.peers := by
  simp [Node.step, hnonce, hid.1, hid.2, hflight, htime, hws.1, hws.2]

theorem claimed_peers {config : Config} {n : Node} {k : ℕ} {redeemer : Redeemer}
    (hk : n.redeems[k]? = some redeemer) {nodeId tb : String} (hid : nodeId ≠ "")
    (htb : Node.acceptable config tb = true) (wsUrl : String) :
    (n.step config (.claimed k (some (nodeId, some wsUrl, tb)))).1.peers =
      add ⟨nodeId, wsUrl, .full, "online", some tb,
        (findPeer n.peers nodeId).bind (·.inboundToken),
        (findPeer n.peers nodeId).bind (·.radioId)⟩ n.peers := by
  simp [Node.step, hk, hid, htb]

/-- **Two nodes that follow the protocol end with each other's credentials**: what the one presents
is what the other takes for it. -/
theorem exchange (ca cb : Config) (a b : Node) (began shown confirmed : ℕ)
    (peerWs code nonce : String) (selfWs : Option String) (url url' ws ta tb : String)
    (hredeem : (a.step ca (.redeem began peerWs code selfWs nonce)).2 =
      .claims url code ca.nodeId ws nonce)
    (hclaim : (b.step cb (.claim shown code ca.nodeId ws nonce)).2 =
      .calls url' cb.nodeId cb.ownWsUrl (trim nonce))
    (htime : confirmed < began + flightTtl) (hnonce : trim nonce = nonce)
    (hid : trim cb.nodeId = cb.nodeId ∧ cb.nodeId ≠ "")
    (hws : trim cb.ownWsUrl = cb.ownWsUrl ∧ cb.ownWsUrl ≠ "")
    (hta : Node.acceptable cb ta = true) (htb : Node.acceptable ca tb = true)
    (hfa : ∀ p ∈ a.peers, p.inboundToken ≠ some ta)
    (hfb : ∀ p ∈ b.peers, p.inboundToken ≠ some tb) :
    let a₁ := (a.step ca (.redeem began peerWs code selfWs nonce)).1
    let b₁ := (b.step cb (.claim shown code ca.nodeId ws nonce)).1
    let a₂ := (a₁.step ca (.confirm confirmed cb.nodeId cb.ownWsUrl (trim nonce) ta)).1
    let b₂ := (b₁.step cb (.answered b.claims.length (some ta) tb)).1
    let a₃ := (a₂.step ca
      (.claimed a.redeems.length (some (cb.nodeId, some cb.ownWsUrl, tb)))).1
    Paired a₃ cb.nodeId tb ta ∧ Paired b₂ (trim ca.nodeId) ta tb := by
  have hnonempty : ∀ {config : Config} {t : String}, Node.acceptable config t = true → t ≠ "" := by
    rintro config t h rfl
    cases h
  obtain ⟨hb₁, hnonce'⟩ := claim_eq_calls hclaim
  rw [hnonce] at hnonce'
  simp only [redeem_eq_claims hredeem, hb₁, hnonce]
  constructor
  · obtain ⟨hredeems, hpeers⟩ := @confirm_peers ca _ _ _ ta _ _ _
      { a with
        flight := some ⟨url, nonce, began + flightTtl⟩
        redeems := a.redeems ++ [⟨peerWs, nonce⟩] } rfl htime hnonce' hid hws
    generalize (Node.step ca _ (.confirm confirmed cb.nodeId cb.ownWsUrl nonce ta)).1 = a₂
      at hredeems hpeers ⊢
    have hk : a₂.redeems[a.redeems.length]? = some ⟨peerWs, nonce⟩ := by
      rw [hredeems]
      simp
    have ha₃ := claimed_peers hk hid.2 htb cb.ownWsUrl
    rw [hpeers, findPeer_add _ a.peers] at ha₃
    have hpeers₃ := ha₃.trans (add_add (by rfl) a.peers)
    exact paired_add hpeers₃ (hnonempty hta) rfl rfl hfa
  · refine @paired_add ⟨trim ca.nodeId, trim ws, .full, "online", some ta, some tb, none⟩ _
      b.peers _ _ ?_ (hnonempty htb) rfl rfl hfb
    simp [Node.step, hta]

/-- What the two mint. -/
def minted (c : Char) : String := String.ofList (List.replicate 64 c)

theorem exchange_kitchen_cellar :
    let a₁ := (Node.new.step cellar (.redeem 0 "ws://10.0.0.1:8787" "123456" none "n")).1
    let b := (Node.new.step kitchen (.start 0 "123456")).1
    let b₁ := (b.step kitchen (.claim 1 "123456" "cellar" "ws://10.0.0.2:8787" "n")).1
    let a₂ := (a₁.step cellar
      (.confirm 2 "kitchen" "ws://10.0.0.1:8787" (trim "n") (minted 'a'))).1
    let b₂ := (b₁.step kitchen (.answered 0 (some (minted 'a')) (minted 'b'))).1
    let a₃ := (a₂.step cellar
      (.claimed 0 (some ("kitchen", some "ws://10.0.0.1:8787", minted 'b')))).1
    Paired a₃ "kitchen" (minted 'b') (minted 'a') ∧
      Paired b₂ (trim "cellar") (minted 'a') (minted 'b') :=
  exchange cellar kitchen .new (Node.new.step kitchen (.start 0 "123456")).1 0 1 2
    "ws://10.0.0.1:8787" "123456" "n" none "http://10.0.0.1:8787" "http://10.0.0.2:8787"
    "ws://10.0.0.2:8787" (minted 'a') (minted 'b') (by decide) (by decide) (by decide) (by decide)
    (by decide) (by decide) (by decide) (by decide) (by decide) (by decide)

end

end ApexOS.Agentd.Pairing
