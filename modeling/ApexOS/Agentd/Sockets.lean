import ApexOS.Agentd.Login
import ApexOS.Fabrica.Worker
import ApexOS.Lib.Run

/-!
# Sockets and sessions

`handle_socket` of `agentd/crates/gateway/src/lib.rs` and the owners of sessions in
`session_auth.rs`: a socket that connects is given a session, may resume another one that its user
may see, and speaks for the one it follows; who a session belongs to is told by a file that is
written once. A session is bound to one of the user's agents, until the socket that bound it
closes. Sockets wait for the registry of profiles and for one another's locks, so that the steps of
any number of them interleave.

## Main definitions

* `writeSessionOwner`, `sessionVisibleTo`, `gateAgentBind`: who may follow what, and as whom
* `Gateway.step`: the sockets

## Main results

* `follows_own`: a user's socket follows sessions of this user only, or the owner's one that was
  nobody's; unless the file of an owner was left over from before
* `speaks_as`: a session speaks as an agent of the user who bound it, unless a socket closes that
  had bound it while another follows it
-/

namespace ApexOS.Agentd.Sockets

open Login (SessionAuth AuthRole)
open Fabrica (trim)

/-! ### Who may follow what, and as whom -/

/-- `read_session_owner`; `owners` are the files. -/
def readSessionOwner (owners : Table ℕ String) (id : ℕ) : Option String :=
  ((owners.get? id).map trim).filter fun s => s ≠ ""

/-- How the write of a file ends. -/
inductive Stamp
  | whole
  | empty
  | failed
  deriving DecidableEq, Repr

/-- `write_session_owner`. -/
def writeSessionOwner (owners : Table ℕ String) (id : ℕ) (userId : String) (stamp : Stamp) :
    Table ℕ String :=
  if userId = "" ∨ owners.contains id = true then owners
  else
    match stamp with
    | .whole => owners.insert id userId
    | .empty => owners.insert id ""
    | .failed => owners

/-- `session_visible_to`. -/
def sessionVisibleTo (owners : Table ℕ String) (id : ℕ) (auth : SessionAuth) : Bool :=
  match readSessionOwner owners id with
  | none => auth.role = .owner
  | some owner => owner = auth.userId

/-- `gate_agent_bind`. -/
def gateAgentBind (auth : SessionAuth) (requested : String) (owned : List String) :
    Option String :=
  let owns (a : String) : Bool := a ≠ "" && owned.contains a
  if owns requested then some requested
  else if owns auth.agentId then some auth.agentId
  else none

/-! ### The sockets -/

/-- What a socket has to do next: write the owner of its first session, bind it, bind the session
that was asked for, or wait for its client. -/
inductive Phase
  | minted
  | first
  | binding (agentId : String)
  | idle
  deriving DecidableEq, Repr

/-- A socket, with the sessions that it has bound. -/
structure Socket where
  auth : Option SessionAuth
  session : ℕ
  bound : List ℕ
  closed : Bool
  phase : Phase
  deriving DecidableEq

/-- The files of owners, the sessions that are listed in `histories`, `session_bindings`, the agents
with their owners, and the sockets. -/
structure Gateway where
  owners : Table ℕ String
  listed : List ℕ
  nextSessionId : ℕ
  bindings : Table ℕ String
  agents : List (String × String)
  sockets : Table ℕ Socket

inductive Input
  | connect (k : ℕ) (auth : Option SessionAuth)
  | stamp (k : ℕ) (stamp : Stamp)
  | hello (k : ℕ) (resume : Option ℕ) (wantNew : Bool) (agentId : String) (stamp : Stamp)
  | bind (k : ℕ)
  | speak (k : ℕ)
  | close (k : ℕ)
  | mint
  | list (session : ℕ)
  | retire (session : ℕ)
  | addAgent (id owner : String)
  deriving DecidableEq

inductive Output
  | quiet
  | minted (session : ℕ) (user : Option String)
  | bound (session : ℕ) (agent : String) (user : Option String)
  | spoke (session : ℕ)
  deriving DecidableEq

namespace Gateway

variable (g : Gateway)

def setSocket (k : ℕ) (sock : Socket) : Gateway := { g with sockets := g.sockets.insert k sock }

/-- A new session is listed. -/
def mint : Gateway :=
  { g with listed := g.listed ++ [g.nextSessionId], nextSessionId := g.nextSessionId + 1 }

/-- The owner of a session is written, where there is a user. -/
def stampOwner (session : ℕ) (auth : Option SessionAuth) (stamp : Stamp) : Gateway :=
  match auth with
  | none => g
  | some a => { g with owners := writeSessionOwner g.owners session a.userId stamp }

/-- Which session a `Hello` leads to. -/
def greet (sock : Socket) (resume : Option ℕ) (wantNew : Bool) (stamp : Stamp) :
    Gateway × ℕ × Output :=
  match resume.filter fun s => s ∈ g.listed with
  | some s =>
    let allowed := sock.auth.all fun a => sessionVisibleTo g.owners s a
    (g, if allowed then s else sock.session, .quiet)
  | none =>
    if wantNew then
      (g.mint.stampOwner g.nextSessionId sock.auth stamp, g.nextSessionId,
        .minted g.nextSessionId (sock.auth.map SessionAuth.userId))
    else (g, sock.session, .quiet)

/-- The agents that a user owns, by `agents_for`. -/
def agentsFor (userId : String) : List String :=
  (g.agents.filter fun a => a.2 = userId).map Prod.fst

/-- A session is bound by a socket. -/
def bindTo (k : ℕ) (sock : Socket) (agent : String) : Gateway × Output :=
  ({ g with
    bindings := g.bindings.insert sock.session agent
    sockets := g.sockets.insert k
      { sock with bound := sock.session :: sock.bound, phase := .idle } },
    .bound sock.session agent (sock.auth.map SessionAuth.userId))

/-- `handle_socket`, and what else changes sessions and agents. -/
def step : Input → Gateway × Output
  | .connect k auth =>
    match g.sockets.get? k with
    | some _ => (g, .quiet)
    | none =>
      let phase := if auth.isSome then .minted else .idle
      (g.mint.setSocket k ⟨auth, g.nextSessionId, [], false, phase⟩,
        .minted g.nextSessionId (auth.map SessionAuth.userId))
  | .stamp k stamp =>
    match g.sockets.get? k with
    | some sock =>
      if sock.phase = .minted then
        ((g.stampOwner sock.session sock.auth stamp).setSocket k { sock with phase := .first },
          .quiet)
      else (g, .quiet)
    | none => (g, .quiet)
  | .hello k resume wantNew agentId stamp =>
    match g.sockets.get? k with
    | some sock =>
      if sock.phase = .idle then
        let (g, session, out) := g.greet sock resume wantNew stamp
        (g.setSocket k { sock with session, phase := .binding agentId }, out)
      else (g, .quiet)
    | none => (g, .quiet)
  | .bind k =>
    match g.sockets.get? k with
    | some sock =>
      match sock.phase, sock.auth with
      | .first, some a =>
        match gateAgentBind a "" (g.agentsFor a.userId) with
        | some agent => g.bindTo k sock agent
        | none => (g.setSocket k { sock with phase := .idle }, .quiet)
      | .binding agentId, some a =>
        match gateAgentBind a agentId (g.agentsFor a.userId) with
        | some agent => g.bindTo k sock agent
        | none =>
          ({ g with bindings := g.bindings.erase sock.session }.setSocket k
            { sock with phase := .idle }, .quiet)
      | .binding agentId, none =>
        if agentId = "" then (g.setSocket k { sock with phase := .idle }, .quiet)
        else g.bindTo k sock agentId
      | _, _ => (g, .quiet)
    | none => (g, .quiet)
  | .speak k =>
    match g.sockets.get? k with
    | some sock => if sock.phase = .idle then (g, .spoke sock.session) else (g, .quiet)
    | none => (g, .quiet)
  -- the client may still be read for a while
  | .close k =>
    match g.sockets.get? k with
    | some sock =>
      if sock.closed then (g, .quiet)
      else
        ({ g with bindings := g.bindings.eraseAll sock.bound }.setSocket k
          { sock with closed := true }, .quiet)
    | none => (g, .quiet)
  -- goals and peers take numbers of their own, and whatever has a transcript is listed
  | .mint => ({ g with nextSessionId := g.nextSessionId + 1 }, .minted g.nextSessionId none)
  | .list session => ({ g with listed := g.listed ++ [session] }, .quiet)
  | .retire session => ({ g with listed := g.listed.filter (· ≠ session) }, .quiet)
  | .addAgent id owner => ({ g with agents := g.agents ++ [(id, owner)] }, .quiet)

/-- A gateway that has just started. -/
def start (owners : Table ℕ String) (listed : List ℕ) (nextSessionId : ℕ)
    (agents : List (String × String)) : Gateway :=
  ⟨owners, listed, nextSessionId, .empty, agents, .empty⟩

end Gateway

/-! ### What is read of the files -/

section

variable {owners : Table ℕ String} {s : ℕ} {t u : String}

theorem readSessionOwner_eq_some :
    readSessionOwner owners s = some u ↔ ∃ t, owners.get? s = some t ∧ trim t = u ∧ u ≠ "" := by
  rw [readSessionOwner]
  cases owners.get? s with
  | none => simp
  | some t =>
    simp only [Option.map_some, Option.filter_eq_some_iff, Option.some_inj, decide_eq_true_eq]
    constructor
    · rintro ⟨rfl, hne⟩
      exact ⟨t, rfl, rfl, hne⟩
    · rintro ⟨_, rfl, rfl, hne⟩
      exact ⟨rfl, hne⟩

/-- What a write leaves in the file of a session. -/
theorem get?_writeSessionOwner {id : ℕ} {stamp : Stamp}
    (h : (writeSessionOwner owners id u stamp).get? s = some t) :
    owners.get? s = some t ∨ t = "" ∨ s = id ∧ t = u := by
  simp only [writeSessionOwner] at h
  split at h
  · exact .inl h
  · cases stamp with
    | whole =>
      rw [Table.get?_insert] at h
      split at h
      · rename_i hs
        cases h
        exact .inr (.inr ⟨hs, rfl⟩)
      · exact .inl h
    | empty =>
      rw [Table.get?_insert] at h
      split at h
      · cases h
        exact .inr (.inl rfl)
      · exact .inl h
    | failed => exact .inl h

end

/-! ### Whose a session is -/

abbrev Past := List (Input × Output)

/-- A session was given out, to a user or to nobody. -/
def Minted (past : Past) (s : ℕ) (user : Option String) : Prop := ∃ x ∈ past, x.2 = .minted s user

/-- A session is a user's: it was given out to this user, or what its file says is this user, but
for blanks around it. -/
def Mine (g₀ : Gateway) (past : Past) (s : ℕ) (u : String) : Prop :=
  Minted past s (some u) ∨
    ∃ t, trim t = u ∧ (g₀.owners.get? s = some t ∨ Minted past s (some t))

/-- At some time a session had no owner. -/
def Unowned (g₀ : Gateway) (es : List Input) (s : ℕ) : Prop :=
  ∃ es₁, es₁ <+: es ∧ readSessionOwner (Run.final Gateway.step g₀ es₁).owners s = none

/-- What a socket follows is its user's, or the owner's that was nobody's; and what it has to write
is so. -/
def Follows (g₀ : Gateway) (es : List Input) (past : Past) (sock : Socket) : Prop :=
  ∀ a, sock.auth = some a →
    (Mine g₀ past sock.session a.userId ∨ a.role = .owner ∧ Unowned g₀ es sock.session) ∧
      (sock.phase = .minted → Minted past sock.session (some a.userId))

section

variable {g₀ g : Gateway} {es : List Input} {past : Past} {s : ℕ} {u : String} {sock : Socket}
  {i : Input} {x : Input × Output} {o : Option String}

theorem minted_concat : Minted (past ++ [x]) s o ↔ Minted past s o ∨ x.2 = .minted s o := by
  simp [Minted, or_and_right, exists_or]

theorem Minted.concat (h : Minted past s o) : Minted (past ++ [x]) s o := minted_concat.mpr (.inl h)

theorem Mine.concat (h : Mine g₀ past s u) : Mine g₀ (past ++ [x]) s u := by
  obtain h | ⟨t, ht, h⟩ := h
  · exact .inl h.concat
  · exact .inr ⟨t, ht, h.imp_right Minted.concat⟩

theorem Unowned.concat (h : Unowned g₀ es s) : Unowned g₀ (es ++ [i]) s := by
  obtain ⟨es₁, hprefix, hnone⟩ := h
  exact ⟨es₁, hprefix.trans (List.prefix_append _ _), hnone⟩

theorem Follows.concat (h : Follows g₀ es past sock) :
    Follows g₀ (es ++ [i]) (past ++ [x]) sock := by
  intro a ha
  obtain ⟨hfollows, hminted⟩ := h a ha
  exact ⟨hfollows.imp Mine.concat fun h => ⟨h.1, h.2.concat⟩, fun hphase => (hminted hphase).concat⟩

/-- A socket that goes on with the same session. -/
theorem Follows.congr {sock' : Socket} (h : Follows g₀ es past sock)
    (hauth : sock'.auth = sock.auth) (hsession : sock'.session = sock.session)
    (hphase : sock'.phase ≠ .minted) : Follows g₀ es past sock' := by
  intro a ha
  rw [hsession]
  exact ⟨(h a (hauth ▸ ha)).1, fun hminted => absurd hminted hphase⟩

/-- What the past says of the gateway. -/
structure Isolated (g₀ : Gateway) (es : List Input) (past : Past) (g : Gateway) : Prop where
  owners : ∀ s t, g.owners.get? s = some t →
    g₀.owners.get? s = some t ∨ t = "" ∨ Minted past s (some t)
  follows : ∀ k sock, g.sockets.get? k = some sock → Follows g₀ es past sock
  counts : ∀ s o, Minted past s o → g₀.nextSessionId ≤ s ∧ s < g.nextSessionId
  le : g₀.nextSessionId ≤ g.nextSessionId
  unique : ∀ s o o', Minted past s o → Minted past s o' → o = o'

theorem Isolated.move (h : Isolated g₀ es past g) {g' : Gateway}
    (howners : ∀ s t, g'.owners.get? s = some t →
      g.owners.get? s = some t ∨ t = "" ∨ Minted (past ++ [x]) s (some t))
    (hfollows : ∀ k sock, g'.sockets.get? k = some sock →
      Follows g₀ (es ++ [i]) (past ++ [x]) sock)
    (hout : (∀ s o, x.2 ≠ .minted s o) ∧ g'.nextSessionId = g.nextSessionId ∨
      ∃ o, x.2 = .minted g.nextSessionId o ∧ g'.nextSessionId = g.nextSessionId + 1) :
    Isolated g₀ (es ++ [i]) (past ++ [x]) g' where
  owners s t ht := by
    obtain hold | hnew := howners s t ht
    · exact (h.owners s t hold).imp_right (Or.imp_right Minted.concat)
    · exact .inr hnew
  follows := hfollows
  counts s o ho := by
    obtain ⟨hquiet, hnext⟩ | ⟨o', hminted, hnext⟩ := hout
    · rw [hnext]
      exact h.counts s o ((minted_concat.mp ho).resolve_right (hquiet s o))
    · rw [hnext]
      obtain hold | hnew := minted_concat.mp ho
      · exact ⟨(h.counts s o hold).1, (h.counts s o hold).2.trans (Nat.lt_succ_self _)⟩
      · cases hminted.symm.trans hnew
        exact ⟨h.le, Nat.lt_succ_self _⟩
  le := by
    obtain ⟨-, hnext⟩ | ⟨-, -, hnext⟩ := hout
    · exact hnext ▸ h.le
    · rw [hnext]
      exact h.le.trans (Nat.le_succ _)
  unique s o o' ho ho' := by
    obtain ⟨hquiet, -⟩ | ⟨o'', hminted, -⟩ := hout
    · exact h.unique s o o' ((minted_concat.mp ho).resolve_right (hquiet s o))
        ((minted_concat.mp ho').resolve_right (hquiet s o'))
    · -- a number that is given out was not given out before
      have hnew (o : Option String) : ¬ Minted past g.nextSessionId o := fun h' =>
        absurd (h.counts _ o h').2 (lt_irrefl _)
      obtain ho | ho := minted_concat.mp ho
      · obtain ho' | ho' := minted_concat.mp ho'
        · exact h.unique s o o' ho ho'
        · cases hminted.symm.trans ho'
          exact absurd ho (hnew o)
      · cases hminted.symm.trans ho
        obtain ho' | ho' := minted_concat.mp ho'
        · exact absurd ho' (hnew o')
        · cases hminted.symm.trans ho'
          rfl

theorem Isolated.kept (h : Isolated g₀ es past g) {k : ℕ} {sock : Socket}
    (hsock : g.sockets.get? k = some sock) : Follows g₀ (es ++ [i]) (past ++ [x]) sock :=
  (h.follows k sock hsock).concat

/-- One socket goes on, and the others stay as they are. -/
theorem Isolated.inserted (h : Isolated g₀ es past g) {k : ℕ} {sock : Socket}
    (hsock : Follows g₀ (es ++ [i]) (past ++ [x]) sock) (k' : ℕ) (sock' : Socket)
    (hget : (g.sockets.insert k sock).get? k' = some sock') :
    Follows g₀ (es ++ [i]) (past ++ [x]) sock' := by
  rw [Table.get?_insert] at hget
  split at hget
  · cases hget
    exact hsock
  · exact h.kept hget

/-- Nothing is written and nothing is given out. -/
theorem Isolated.quiet (h : Isolated g₀ es past g) {g' : Gateway}
    (howners : g'.owners = g.owners) (hnext : g'.nextSessionId = g.nextSessionId)
    (hfollows : ∀ k sock, g'.sockets.get? k = some sock →
      Follows g₀ (es ++ [i]) (past ++ [x]) sock) (hout : ∀ s o, x.2 ≠ .minted s o) :
    Isolated g₀ (es ++ [i]) (past ++ [x]) g' :=
  h.move (fun _ _ ht => .inl (howners ▸ ht)) hfollows (.inl ⟨hout, hnext⟩)

theorem Isolated.idle (h : Isolated g₀ es past g) :
    Isolated g₀ (es ++ [i]) (past ++ [(i, .quiet)]) g :=
  h.quiet rfl rfl (fun _ _ => h.kept) (by rintro s o ⟨⟩)

/-- A session that a user may see is this user's, or nobody's. -/
theorem Isolated.visible (h : Isolated g₀ es past g) (hstate : g = Run.final Gateway.step g₀ es)
    {a : SessionAuth} (hvisible : sessionVisibleTo g.owners s a = true) :
    Mine g₀ past s a.userId ∨ a.role = .owner ∧ Unowned g₀ es s := by
  rw [sessionVisibleTo] at hvisible
  split at hvisible
  · rename_i hnone
    rw [hstate] at hnone
    exact .inr ⟨of_decide_eq_true hvisible, es, List.prefix_rfl, hnone⟩
  · rename_i owner hsome
    obtain rfl := of_decide_eq_true hvisible
    obtain ⟨t, ht, htrim, hne⟩ := readSessionOwner_eq_some.mp hsome
    refine .inl (.inr ⟨t, htrim, ?_⟩)
    obtain hold | rfl | hminted := h.owners s t ht
    · exact .inl hold
    · exact absurd htrim.symm hne
    · exact .inr hminted

/-- A socket goes on with the same session. -/
theorem Isolated.goOn (h : Isolated g₀ es past g) {k : ℕ} (hsock : g.sockets.get? k = some sock)
    {g' : Gateway} {sock' : Socket} (hsockets : g'.sockets = g.sockets.insert k sock')
    (howners : g'.owners = g.owners) (hnext : g'.nextSessionId = g.nextSessionId)
    (hauth : sock'.auth = sock.auth) (hsession : sock'.session = sock.session)
    (hphase : sock'.phase = .minted → sock.phase = .minted) (hout : ∀ s o, x.2 ≠ .minted s o) :
    Isolated g₀ (es ++ [i]) (past ++ [x]) g' := by
  refine h.quiet howners hnext (fun k' sock'' hget => ?_) hout
  rw [hsockets] at hget
  refine h.inserted (fun a ha => ?_) k' sock'' hget
  obtain ⟨hfollows, hminted⟩ := h.kept (i := i) (x := x) hsock a (hauth ▸ ha)
  rw [hsession]
  exact ⟨hfollows, fun hphase' => hminted (hphase hphase')⟩

/-- A session is given out to a socket. -/
theorem follows_minted {a : SessionAuth} (hminted : Minted past sock.session (some a.userId))
    (hauth : sock.auth = some a) : Follows g₀ es past sock := by
  intro a' ha'
  cases hauth.symm.trans ha'
  exact ⟨.inl (.inl hminted), fun _ => hminted⟩

theorem Isolated.connect (h : Isolated g₀ es past g) (k : ℕ) (auth : Option SessionAuth) :
    Isolated g₀ (es ++ [.connect k auth])
      (past ++ [(.connect k auth, (g.step (.connect k auth)).2)]) (g.step (.connect k auth)).1 := by
  simp only [Gateway.step]
  split
  · exact h.idle
  · refine h.move (fun s t ht => .inl ht) (h.inserted ?_) (.inr ⟨_, rfl, rfl⟩)
    cases auth with
    | none =>
      rintro a ⟨⟩
    | some a => exact follows_minted (minted_concat.mpr (.inr rfl)) rfl

theorem Isolated.stamp (h : Isolated g₀ es past g) (k : ℕ) (stamp : Stamp) :
    Isolated g₀ (es ++ [.stamp k stamp])
      (past ++ [(.stamp k stamp, (g.step (.stamp k stamp)).2)]) (g.step (.stamp k stamp)).1 := by
  simp only [Gateway.step]
  split
  · rename_i sock hsock
    split
    · rename_i hphase
      cases hauth : sock.auth with
      | none =>
        exact h.goOn hsock rfl rfl rfl hauth.symm rfl (by rintro ⟨⟩) (by rintro s o ⟨⟩)
      | some a =>
        refine h.move (fun s t ht => ?_) (h.inserted ?_) (.inl ⟨by rintro s o ⟨⟩, rfl⟩)
        · obtain hold | hnone | ⟨rfl, rfl⟩ := get?_writeSessionOwner ht
          · exact .inl hold
          · exact .inr (.inl hnone)
          · exact .inr (.inr ((h.follows k sock hsock a hauth).2 hphase).concat)
        · exact (h.kept hsock).congr hauth.symm rfl (by rintro ⟨⟩)
    · exact h.idle
  · exact h.idle

theorem Isolated.hello (h : Isolated g₀ es past g) (hstate : g = Run.final Gateway.step g₀ es)
    (k : ℕ) (resume : Option ℕ) (wantNew : Bool) (agentId : String) (stamp : Stamp) :
    Isolated g₀ (es ++ [.hello k resume wantNew agentId stamp])
      (past ++ [(.hello k resume wantNew agentId stamp,
        (g.step (.hello k resume wantNew agentId stamp)).2)])
      (g.step (.hello k resume wantNew agentId stamp)).1 := by
  simp only [Gateway.step]
  split
  · rename_i sock hsock
    split
    · rw [Gateway.greet]
      split
      · rename_i s hlisted
        by_cases hallowed : (sock.auth.all fun a => sessionVisibleTo g.owners s a) = true
        · -- it is resumed
          simp only [hallowed, if_true]
          refine h.quiet rfl rfl (h.inserted fun a ha => ⟨?_, by rintro ⟨⟩⟩) (by rintro s o ⟨⟩)
          have ha : sock.auth = some a := ha
          rw [ha] at hallowed
          exact (h.visible hstate hallowed).imp Mine.concat fun h => ⟨h.1, h.2.concat⟩
        · simp only [hallowed, Bool.false_eq_true, if_false]
          exact h.goOn hsock rfl rfl rfl rfl rfl (by rintro ⟨⟩) (by rintro s o ⟨⟩)
      · cases wantNew with
        | true =>
          simp only [if_true]
          cases hauth : sock.auth with
          | none =>
            refine h.move (fun s t ht => .inl ht) (h.inserted ?_) (.inr ⟨none, rfl, rfl⟩)
            rintro a ⟨⟩
          | some a =>
            have hminted : Minted (past ++ [(Input.hello k resume true agentId stamp,
                Output.minted g.nextSessionId (some a.userId))]) g.nextSessionId (some a.userId) :=
              minted_concat.mpr (.inr rfl)
            refine h.move (fun s t ht => ?_) (h.inserted (follows_minted hminted rfl))
              (.inr ⟨some a.userId, rfl, rfl⟩)
            obtain hold | hnone | ⟨rfl, rfl⟩ := get?_writeSessionOwner ht
            · exact .inl hold
            · exact .inr (.inl hnone)
            · exact .inr (.inr hminted)
        | false =>
          simp only [Bool.false_eq_true, if_false]
          exact h.goOn hsock rfl rfl rfl rfl rfl (by rintro ⟨⟩) (by rintro s o ⟨⟩)
    · exact h.idle
  · exact h.idle

theorem Isolated.bind (h : Isolated g₀ es past g) (k : ℕ) :
    Isolated g₀ (es ++ [.bind k]) (past ++ [(.bind k, (g.step (.bind k)).2)])
      (g.step (.bind k)).1 := by
  simp only [Gateway.step]
  split
  · rename_i sock hsock
    split
    · split
      · exact h.goOn hsock rfl rfl rfl rfl rfl (by rintro ⟨⟩) (by rintro s o ⟨⟩)
      · exact h.goOn hsock rfl rfl rfl rfl rfl (by rintro ⟨⟩) (by rintro s o ⟨⟩)
    · split
      · exact h.goOn hsock rfl rfl rfl rfl rfl (by rintro ⟨⟩) (by rintro s o ⟨⟩)
      · exact h.goOn hsock rfl rfl rfl rfl rfl (by rintro ⟨⟩) (by rintro s o ⟨⟩)
    · split
      · exact h.goOn hsock rfl rfl rfl rfl rfl (by rintro ⟨⟩) (by rintro s o ⟨⟩)
      · exact h.goOn hsock rfl rfl rfl rfl rfl (by rintro ⟨⟩) (by rintro s o ⟨⟩)
    · exact h.idle
  · exact h.idle

theorem Isolated.step (h : Isolated g₀ es past g) (hstate : g = Run.final Gateway.step g₀ es)
    (i : Input) : Isolated g₀ (es ++ [i]) (past ++ [(i, (g.step i).2)]) (g.step i).1 := by
  cases i with
  | connect k auth => exact h.connect k auth
  | stamp k stamp => exact h.stamp k stamp
  | hello k resume wantNew agentId stamp => exact h.hello hstate k resume wantNew agentId stamp
  | bind k => exact h.bind k
  | speak k =>
    simp only [Gateway.step]
    split
    · split
      · exact h.quiet rfl rfl (fun _ _ => h.kept) (by rintro s o ⟨⟩)
      · exact h.idle
    · exact h.idle
  | close k =>
    simp only [Gateway.step]
    split
    · rename_i sock hsock
      split
      · exact h.idle
      · exact h.goOn hsock rfl rfl rfl rfl rfl (fun h => h) (by rintro s o ⟨⟩)
    · exact h.idle
  | mint => exact h.move (fun _ _ ht => .inl ht) (fun _ _ => h.kept) (.inr ⟨none, rfl, rfl⟩)
  | list session => exact h.quiet rfl rfl (fun _ _ => h.kept) (by rintro s o ⟨⟩)
  | retire session => exact h.quiet rfl rfl (fun _ _ => h.kept) (by rintro s o ⟨⟩)
  | addAgent id owner => exact h.quiet rfl rfl (fun _ _ => h.kept) (by rintro s o ⟨⟩)

theorem isolated_final (owners : Table ℕ String) (listed : List ℕ) (nextSessionId : ℕ)
    (agents : List (String × String)) (es : List Input) :
    Isolated (.start owners listed nextSessionId agents) es
      (Run.log Gateway.step (.start owners listed nextSessionId agents) es)
      (Run.final Gateway.step (.start owners listed nextSessionId agents) es) := by
  induction es using List.reverseRecOn with
  | nil =>
    have hnone (s : ℕ) (o : Option String) : ¬ Minted [] s o := by
      rintro ⟨x, hx, -⟩
      exact absurd hx List.not_mem_nil
    exact ⟨fun s t ht => .inl ht, by rintro k sock ⟨⟩, fun s o ho => absurd ho (hnone s o), le_rfl,
      fun s o _ ho => absurd ho (hnone s o)⟩
  | append_singleton es i ih =>
    rw [Run.log_append, Run.final_append]
    exact ih.step rfl i

/-- **A user's socket follows sessions of this user**, which were given out to nobody else; or it is
the owner's, and the session once was nobody's. -/
theorem follows_own (owners : Table ℕ String) (listed : List ℕ) (nextSessionId : ℕ)
    (agents : List (String × String)) (hfresh : ∀ s, nextSessionId ≤ s → owners.get? s = none)
    (es : List Input) {k : ℕ} {sock : Socket} {a : SessionAuth}
    (hsock : (Run.final Gateway.step (.start owners listed nextSessionId agents)
      es).sockets.get? k = some sock) (hauth : sock.auth = some a) :
    (Mine (.start owners listed nextSessionId agents)
        (Run.log Gateway.step (.start owners listed nextSessionId agents) es)
        sock.session a.userId ∧
      ∀ o, Minted (Run.log Gateway.step (.start owners listed nextSessionId agents) es)
        sock.session o → ∃ u, o = some u ∧ (u = a.userId ∨ trim u = a.userId)) ∨
    a.role = .owner ∧ Unowned (.start owners listed nextSessionId agents) es sock.session := by
  have h := isolated_final owners listed nextSessionId agents es
  refine (h.follows k sock hsock a hauth).1.imp_left fun hmine => ⟨hmine, fun o ho => ?_⟩
  obtain hminted | ⟨t, htrim, hfile | hminted⟩ := hmine
  · exact ⟨a.userId, h.unique _ _ _ ho hminted, .inl rfl⟩
  · -- there is no file for what is still to be given out
    cases (hfresh _ (h.counts _ o ho).1).symm.trans hfile
  · exact ⟨t, h.unique _ _ _ ho hminted, .inr htrim⟩

def owner : SessionAuth := .new "owner" "APEX"

def guest : SessionAuth := .new "guest" "LUMA"

/-- The owner and a guest connect, and the guest asks for session 7. -/
def asksForSeven : List Input :=
  [.connect 0 (some owner), .stamp 0 .whole, .bind 0, .connect 1 (some guest), .stamp 1 .whole,
    .bind 1, .hello 1 (some 7) false "" .whole]

theorem follows_own_guest :
    (Mine (.start .empty [] 7 [("LUMA", "guest")])
        (Run.log Gateway.step (.start .empty [] 7 [("LUMA", "guest")]) asksForSeven)
        8 "guest" ∧
      ∀ o, Minted (Run.log Gateway.step (.start .empty [] 7 [("LUMA", "guest")]) asksForSeven)
        8 o → ∃ u, o = some u ∧ (u = "guest" ∨ trim u = "guest")) ∨
    AuthRole.user = .owner ∧ Unowned (.start .empty [] 7 [("LUMA", "guest")]) asksForSeven 8 := by
  have hsock : (Run.final Gateway.step (.start .empty [] 7 [("LUMA", "guest")])
      asksForSeven).sockets.get? 1 = some ⟨some guest, 8, [8], false, .binding ""⟩ := by
    decide +kernel
  exact follows_own .empty [] 7 [("LUMA", "guest")] (fun _ _ => rfl) asksForSeven hsock rfl

/-- Where the file of an owner was left over for a number that is given out again, a guest follows
the owner's session. -/
theorem follows_leftover :
    ((Run.final Gateway.step (.start (Table.empty.insert 7 "guest") [] 7 [("LUMA", "guest")])
      asksForSeven).sockets.get? 1).map Socket.session = some 7 ∧
    Minted (Run.log Gateway.step (.start (Table.empty.insert 7 "guest") [] 7
      [("LUMA", "guest")]) asksForSeven) 7 (some "owner") :=
  ⟨by decide +kernel, _, List.mem_cons_self, rfl⟩

end

/-! ### As whom a session speaks -/

/-- A session was bound to an agent, by a user's socket or by one without a user. -/
def Bound (past : Past) (s : ℕ) (agent : String) (user : Option String) : Prop :=
  ∃ x ∈ past, x.2 = .bound s agent user

/-- No socket closes while a user's other one follows what it has bound, and users own the agents
that their logins gave them. -/
def Calm (g : Gateway) : Input → Prop
  | .close k => ∀ sock, g.sockets.get? k = some sock → ∀ j sock', j ≠ k →
      g.sockets.get? j = some sock' → sock'.closed = false → sock'.auth.isSome = true →
        sock'.session ∉ sock.bound
  | .bind k => ∀ sock a, g.sockets.get? k = some sock → sock.auth = some a →
      a.agentId ≠ "" ∧ a.agentId ∈ g.agentsFor a.userId
  | _ => True

/-- Whose the agent of a session is, and that the session of an open socket has one. -/
structure Speaks (past : Past) (g : Gateway) : Prop where
  owned : ∀ s agent, g.bindings.get? s = some agent →
    ∃ user, Bound past s agent user ∧ ∀ u, user = some u → (agent, u) ∈ g.agents
  idle : ∀ k sock, g.sockets.get? k = some sock → sock.closed = false → sock.auth.isSome = true →
    sock.phase = .idle → ∃ agent, g.bindings.get? sock.session = some agent

section

variable {g : Gateway} {past : Past} {x : Input × Output} {s : ℕ} {agent : String}

theorem Bound.concat {user : Option String} (h : Bound past s agent user) :
    Bound (past ++ [x]) s agent user := by
  obtain ⟨y, hy, hout⟩ := h
  exact ⟨y, List.mem_append_left _ hy, hout⟩

/-- The gate lets a user bind only what this user owns. -/
theorem mem_of_gateAgentBind {a : SessionAuth} {requested : String}
    (h : gateAgentBind a requested (g.agentsFor a.userId) = some agent) :
    (agent, a.userId) ∈ g.agents := by
  have hmem {b : String} (hb : b ∈ g.agentsFor a.userId) : (b, a.userId) ∈ g.agents := by
    obtain ⟨⟨b', u⟩, hfilter, rfl⟩ := List.mem_map.mp hb
    obtain ⟨hagents, howner⟩ := List.mem_filter.mp hfilter
    obtain rfl := of_decide_eq_true howner
    exact hagents
  simp only [gateAgentBind] at h
  split at h
  · rename_i howns
    cases h
    exact hmem (by simpa using (Bool.and_eq_true_iff.mp howns).2)
  · split at h
    · rename_i howns
      cases h
      exact hmem (by simpa using (Bool.and_eq_true_iff.mp howns).2)
    · cases h

theorem isSome_gateAgentBind {a : SessionAuth} (requested : String) {owned : List String}
    (hne : a.agentId ≠ "") (hmem : a.agentId ∈ owned) :
    (gateAgentBind a requested owned).isSome = true := by
  simp only [gateAgentBind]
  split
  · rfl
  · rw [if_pos (by simp [hne, hmem])]
    rfl

theorem get?_eraseAll_eq_some {t : Table ℕ String} {ss : List ℕ} :
    (t.eraseAll ss).get? s = some agent ↔ t.get? s = some agent ∧ s ∉ ss := by
  rw [← Table.mem_iff_get?, Table.entries_eraseAll, List.mem_filter, Table.mem_iff_get?,
    decide_eq_true_eq]

theorem Speaks.move (h : Speaks past g) {g' : Gateway}
    (howned : ∀ s agent, g'.bindings.get? s = some agent → g.bindings.get? s = some agent ∨
      ∃ user, x.2 = .bound s agent user ∧ ∀ u, user = some u → (agent, u) ∈ g.agents)
    (hagents : g.agents ⊆ g'.agents)
    (hidle : ∀ k sock, g'.sockets.get? k = some sock → sock.closed = false →
      sock.auth.isSome = true → sock.phase = .idle →
        ∃ agent, g'.bindings.get? sock.session = some agent) : Speaks (past ++ [x]) g' where
  owned s agent hget := by
    obtain hold | ⟨user, hout, huser⟩ := howned s agent hget
    · obtain ⟨user, hbound, huser⟩ := h.owned s agent hold
      exact ⟨user, hbound.concat, fun u hu => hagents (huser u hu)⟩
    · exact ⟨user, ⟨x, by simp, hout⟩, fun u hu => hagents (huser u hu)⟩
  idle := hidle

/-- A socket goes on, and is not idle or has no user. -/
theorem Speaks.goOn (h : Speaks past g) {g' : Gateway} {k : ℕ} {sock : Socket}
    (hbindings : g'.bindings = g.bindings) (hagents : g'.agents = g.agents)
    (hsockets : g'.sockets = g.sockets.insert k sock)
    (hnot : sock.auth = none ∨ sock.phase ≠ .idle) : Speaks (past ++ [x]) g' := by
  refine h.move (fun s agent hget => .inl (hbindings ▸ hget)) (hagents ▸ List.Subset.refl _) ?_
  intro k' sock' hget hopen hauth hphase
  rw [hsockets, Table.get?_insert] at hget
  rw [hbindings]
  split at hget
  · cases hget
    obtain hnone | hphase' := hnot
    · rw [hnone] at hauth
      cases hauth
    · exact absurd hphase hphase'
  · exact h.idle k' sock' hget hopen hauth hphase

theorem Speaks.same (h : Speaks past g) {g' : Gateway} (hbindings : g'.bindings = g.bindings)
    (hagents : g.agents ⊆ g'.agents) (hsockets : g'.sockets = g.sockets) :
    Speaks (past ++ [x]) g' := by
  refine h.move (fun s agent hget => .inl (hbindings ▸ hget)) hagents ?_
  rw [hsockets, hbindings]
  exact h.idle

/-- A session is bound. -/
theorem Speaks.bindTo (h : Speaks past g) {k : ℕ} {sock : Socket} {i : Input}
    (howner : ∀ a, sock.auth = some a → (agent, a.userId) ∈ g.agents) :
    Speaks (past ++ [(i, (g.bindTo k sock agent).2)]) (g.bindTo k sock agent).1 := by
  refine h.move (fun s agent' hget => ?_) (List.Subset.refl _) ?_
  · rw [Gateway.bindTo, Table.get?_insert] at hget
    split at hget
    · rename_i hs
      cases hget
      refine .inr ⟨sock.auth.map SessionAuth.userId, by rw [hs]; rfl, fun u hu => ?_⟩
      obtain ⟨a, ha, rfl⟩ := Option.map_eq_some_iff.mp hu
      exact howner a ha
    · exact .inl hget
  · intro k' sock' hget hopen hauth hphase
    rw [Gateway.bindTo, Table.get?_insert] at hget
    rw [Gateway.bindTo, Table.get?_insert]
    split
    · exact ⟨agent, rfl⟩
    · rename_i hne
      split at hget
      · cases hget
        exact absurd rfl hne
      · exact h.idle k' sock' hget hopen hauth hphase

/-- What a `Hello` leaves alone. -/
theorem greet_frame (g : Gateway) (sock : Socket) (resume : Option ℕ) (wantNew : Bool)
    (stamp : Stamp) : (g.greet sock resume wantNew stamp).1.bindings = g.bindings ∧
      (g.greet sock resume wantNew stamp).1.agents = g.agents ∧
      (g.greet sock resume wantNew stamp).1.sockets = g.sockets := by
  rw [Gateway.greet]
  split
  · exact ⟨rfl, rfl, rfl⟩
  · split
    · cases sock.auth <;> exact ⟨rfl, rfl, rfl⟩
    · exact ⟨rfl, rfl, rfl⟩

theorem Speaks.step (h : Speaks past g) {i : Input} (hcalm : Calm g i) :
    Speaks (past ++ [(i, (g.step i).2)]) (g.step i).1 := by
  cases i with
  | connect k auth =>
    simp only [Gateway.step]
    split
    · exact h.same rfl (List.Subset.refl _) rfl
    · refine h.goOn rfl rfl rfl ?_
      cases auth with
      | none => exact .inl rfl
      | some a => exact .inr (by rintro ⟨⟩)
  | stamp k stamp =>
    simp only [Gateway.step]
    split
    · rename_i sock _
      split
      · cases hauth : sock.auth with
        | none => exact h.goOn rfl rfl rfl (.inr (by rintro ⟨⟩))
        | some a => exact h.goOn rfl rfl rfl (.inr (by rintro ⟨⟩))
      · exact h.same rfl (List.Subset.refl _) rfl
    · exact h.same rfl (List.Subset.refl _) rfl
  | hello k resume wantNew agentId stamp =>
    simp only [Gateway.step]
    split
    · rename_i sock _
      split
      · obtain ⟨hbindings, hagents, hsockets⟩ := greet_frame g sock resume wantNew stamp
        exact h.goOn hbindings hagents (congrArg (Table.insert · k _) hsockets)
          (.inr (by rintro ⟨⟩))
      · exact h.same rfl (List.Subset.refl _) rfl
    · exact h.same rfl (List.Subset.refl _) rfl
  | bind k =>
    simp only [Gateway.step]
    split
    · rename_i sock hsock
      split
      · rename_i a _ hauth
        obtain ⟨hne, hmem⟩ := hcalm sock a hsock hauth
        split
        · rename_i agent hgate
          refine h.bindTo fun a' ha' => ?_
          cases hauth.symm.trans ha'
          exact mem_of_gateAgentBind hgate
        · rename_i hgate
          have hsome := isSome_gateAgentBind "" hne hmem
          rw [hgate] at hsome
          cases hsome
      · rename_i agentId a _ hauth
        obtain ⟨hne, hmem⟩ := hcalm sock a hsock hauth
        split
        · rename_i agent hgate
          refine h.bindTo fun a' ha' => ?_
          cases hauth.symm.trans ha'
          exact mem_of_gateAgentBind hgate
        · rename_i hgate
          have hsome := isSome_gateAgentBind agentId hne hmem
          rw [hgate] at hsome
          cases hsome
      · rename_i agentId _ hauth
        split
        · exact h.goOn rfl rfl rfl (.inl hauth)
        · refine h.bindTo fun a ha => ?_
          cases hauth.symm.trans ha
      · exact h.same rfl (List.Subset.refl _) rfl
    · exact h.same rfl (List.Subset.refl _) rfl
  | speak k =>
    simp only [Gateway.step]
    split
    · split <;> exact h.same rfl (List.Subset.refl _) rfl
    · exact h.same rfl (List.Subset.refl _) rfl
  | close k =>
    simp only [Gateway.step]
    split
    · rename_i sock hsock
      split
      · exact h.same rfl (List.Subset.refl _) rfl
      · refine h.move (fun s agent hget => .inl (get?_eraseAll_eq_some.mp hget).1)
          (List.Subset.refl _) fun k' sock' hget hopen hauth hphase => ?_
        rw [Gateway.setSocket, Table.get?_insert] at hget
        split at hget
        · cases hget
          cases hopen
        · rename_i hne
          obtain ⟨agent, hagent⟩ := h.idle k' sock' hget hopen hauth hphase
          exact ⟨agent, get?_eraseAll_eq_some.mpr
            ⟨hagent, hcalm sock hsock k' sock' hne hget hopen hauth⟩⟩
    · exact h.same rfl (List.Subset.refl _) rfl
  | mint => exact h.same rfl (List.Subset.refl _) rfl
  | list session => exact h.same rfl (List.Subset.refl _) rfl
  | retire session => exact h.same rfl (List.Subset.refl _) rfl
  | addAgent id owner => exact h.same rfl (List.subset_append_left _ _) rfl

/-- **As whom a user's session speaks**: as an agent that was bound to it by a socket of a user who
owns this agent, or by one without a user; where no socket closes while another follows what it has
bound. -/
theorem speaks_as (owners : Table ℕ String) (listed : List ℕ) (nextSessionId : ℕ)
    (agents : List (String × String)) (es : List Input)
    (hcalm : Run.Always Gateway.step (.start owners listed nextSessionId agents)
      (fun _ g i => Calm g i) es) {k : ℕ} {sock : Socket} {a : SessionAuth}
    (hsock : (Run.final Gateway.step (.start owners listed nextSessionId agents)
      es).sockets.get? k = some sock) (hopen : sock.closed = false) (hauth : sock.auth = some a)
    (hidle : sock.phase = .idle) :
    ∃ agent user, (Run.final Gateway.step (.start owners listed nextSessionId agents)
        es).bindings.get? sock.session = some agent ∧
      Bound (Run.log Gateway.step (.start owners listed nextSessionId agents) es)
        sock.session agent user ∧
      ∀ u, user = some u → (agent, u) ∈ (Run.final Gateway.step (.start owners listed nextSessionId
        agents) es).agents := by
  have hspeaks := Run.invariant (I := fun past g => Speaks past g)
    ⟨by rintro s agent ⟨⟩, by rintro k sock ⟨⟩⟩ (fun _ _ _ h hcalm => h.step hcalm) hcalm
  obtain ⟨agent, hagent⟩ := hspeaks.idle k sock hsock hopen (hauth ▸ rfl) hidle
  obtain ⟨user, hbound, huser⟩ := hspeaks.owned _ agent hagent
  exact ⟨agent, user, hagent, hbound, huser⟩

/-- A guest connects, and is bound. -/
def guestConnects : List Input := [.connect 0 (some guest), .stamp 0 .whole, .bind 0]

theorem speaks_as_guest :
    ∃ agent user, (Run.final Gateway.step (.start .empty [] 7 [("LUMA", "guest")])
        guestConnects).bindings.get? 7 = some agent ∧
      Bound (Run.log Gateway.step (.start .empty [] 7 [("LUMA", "guest")]) guestConnects)
        7 agent user ∧
      ∀ u, user = some u → (agent, u) ∈ (Run.final Gateway.step (.start .empty [] 7
        [("LUMA", "guest")]) guestConnects).agents := by
  have hcalm : Run.Always Gateway.step (.start .empty [] 7 [("LUMA", "guest")])
      (fun _ g i => Calm g i) guestConnects := by
    simp only [guestConnects, Run.always_cons]
    refine ⟨trivial, trivial, fun sock a hsock hauth => ?_, .nil⟩
    obtain rfl : sock = ⟨some guest, 7, [], false, .first⟩ :=
      Option.some_inj.mp (hsock.symm.trans (by decide +kernel))
    cases hauth
    exact ⟨by decide +kernel, by decide +kernel⟩
  have hsock : (Run.final Gateway.step (.start .empty [] 7 [("LUMA", "guest")])
      guestConnects).sockets.get? 0 = some ⟨some guest, 7, [7], false, .idle⟩ := by
    decide +kernel
  exact speaks_as .empty [] 7 [("LUMA", "guest")] guestConnects hcalm hsock rfl rfl rfl

/-- A guest follows one session with two sockets, and the first is closed: what the second says is
said as nobody's agent. -/
def closesOne : List Input :=
  [.connect 0 (some guest), .stamp 0 .whole, .bind 0, .connect 1 (some guest), .stamp 1 .whole,
    .bind 1, .hello 1 (some 7) false "LUMA" .whole, .bind 1, .close 0]

theorem speaks_unbound :
    ((Run.final Gateway.step (.start .empty [] 7 [("LUMA", "guest")])
      closesOne).step (.speak 1)).2 = .spoke 7 ∧
    (Run.final Gateway.step (.start .empty [] 7 [("LUMA", "guest")]) closesOne).bindings.get? 7 =
      none := by
  decide +kernel

end

end ApexOS.Agentd.Sockets
