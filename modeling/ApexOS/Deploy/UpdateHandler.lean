import ApexOS.Lib.Json
import ApexOS.Lib.Run
import ApexOS.Lib.Script
import ApexOS.Deploy.Verdict

/-!
# The self-update handler

`run_update` of `agentd/crates/agentd/src/self_update.rs`, with the steps it is made of. A call of
`apply_daemon_update` is taken through its gates: a clean tree at the commit, a review of the diff,
a locked test and build in an isolated checkout, the sums of the two binaries. `update.lock` is
held from the review on; `request.json` is what the watchdog acts upon.

What the commands, the reviewer and the file system come to is a parameter of each call; a command
that fails has its output cut to its last bytes, and a cut inside a character stops the handler's
task. The handler takes one call after another, the watchdog may take `request.json` at any
time, and the daemon may be restarted between any two effects.

## Main definitions

* `runUpdate`: the effects of a call
* `step`: calls, effects, restarts and the watchdog
* `Unwedged`: what is promised
* `Harmless`: the steps that keep it

## Main results

* `runUpdate_goes`: a call whose texts can all be cut answers once, without the lock
* `unwedged_of_harmless`: the promise over runs
-/

namespace ApexOS.Deploy.UpdateHandler

open Verdict
open ApexOS.Agentd (isWhitespace)

/-! ### Requests and effects -/

/-- `SelfUpdateRequest`. -/
structure SelfUpdateRequest where
  stagedSha256 : String
  targetCommit : String
  prevCommit : String
  createdAt : ℕ
  timeout : ℕ
  reason : String

/-- A `ToolResult`: whether it went well, and its text. -/
abbrev Reply := Bool × String

inductive Effect
  | lock
  | unlock
  | file (request : SelfUpdateRequest)
  | emit (reply : Reply)

/-- `emit` and `return`. -/
def finish {α : Type} (ok : Bool) (msg : String) : Script Effect α := .answer (.emit (ok, msg))

/-! ### What a call meets -/

/-- What a command comes to. -/
inductive Outcome
  | spawnFailed (e : String)
  | waitFailed (e : String)
  | timedOut
  | exited (success : Bool) (stdout stderr : List Char)

/-- The daemon's settings. -/
structure Config where
  repo : String
  updateDir : String
  /-- `isolated_target_dir`. -/
  targetDir : String
  cargoBin : String
  buildCommit : String
  buildTimeout : ℕ
  probeTimeout : ℕ
  reviewEnabled : Bool

/-- What `sha256sum` comes to: it cannot be run, or its success and its two outputs. -/
abbrev SumOutput := Except String (Bool × List Char × List Char)

/-- What the steps of a call come to, in the order of the source. An error of the file system is
its text. -/
structure World where
  repoExists : Bool
  status : Outcome
  head : Outcome
  resolved : Outcome
  cargoVersion : Outcome
  lockTaken : Bool
  lockCleared : Bool
  prev : Outcome
  diff : Outcome
  /-- What `collect_completion` comes to. -/
  review : Except String (List Char)
  cleanup : Outcome
  srcParent : Option String
  worktree : Outcome
  worktreeCleanup : Outcome
  clone : Outcome
  checkout : Outcome
  isolatedHead : Outcome
  lockFile : Bool
  readOnly : Option String
  targetRoot : Option String
  test : Outcome
  build : Outcome
  builtExists : Bool
  lastCleanup : Outcome
  builtSum : SumOutput
  stageBinary : Option String
  stagedSum : SumOutput
  now : ℕ
  writeRequest : Option String

/-! ### Commands -/

/-- `tail`. -/
def tail (s : List Char) (max : ℕ) : Option String :=
  if Utf8.len s ≤ max then some (String.ofList s)
  else (Utf8.drop? s (Utf8.len s - max)).map fun cs => "…(truncated)…\n" ++ String.ofList cs

/-- `run_cmd` and `run_cmd_scrubbed`. -/
def runCmd (program : String) (args : List String) (secs : ℕ) :
    Outcome → Script Effect (Except String (List Char))
  | .spawnFailed e => pure (.error ("spawn `" ++ program ++ "` failed: " ++ e))
  | .waitFailed e => pure (.error ("`" ++ program ++ "` wait failed: " ++ e))
  | .timedOut => pure (.error ("`" ++ program ++ " " ++ " ".intercalate args ++
      "` timed out after " ++ toString secs ++ "s"))
  | .exited true stdout stderr => pure (.ok (stdout ++ stderr))
  | .exited false stdout stderr => do
    let text ← Script.unwrap (tail (stdout ++ '\n' :: stderr) 4000)
    pure (.error text)

/-- `git`. -/
def git (args : List String) (o : Outcome) : Script Effect (Except String (List Char)) := do
  let out ← runCmd "git" args 30 o
  pure (out.map trim)

/-! ### Arguments -/

/-- A text argument. -/
def textArg (args : Json) (key : String) : List Char :=
  trim (((args.get? key).bind Json.asStr).getD "").toList

/-- `dry_run`. -/
def dryRun (args : Json) : Bool := ((args.get? "dry_run").bind Json.asBool).getD false

/-- `is_ascii_hexdigit`. -/
def isAsciiHexdigit (c : Char) : Bool :=
  c.isDigit || ('a' ≤ c && c ≤ 'f') || ('A' ≤ c && c ≤ 'F')

/-- `is_full_git_sha`. -/
def isFullGitSha (s : List Char) : Bool := Utf8.len s == 40 && s.all isAsciiHexdigit

/-! ### Stage 0: preconditions -/

section

variable (cfg : Config) (args : Json) (w : World)

def cleanTree : Script Effect PUnit := do
  match ← git ["status", "--porcelain"] w.status with
  | .ok [] => pure ⟨⟩
  | .ok (c :: cs) => do
    let text ← Script.unwrap (tail (c :: cs) 1000)
    finish false ("repo " ++ cfg.repo ++ " has uncommitted changes — commit or stash first:\n" ++
      text)
  | .error e => finish false ("git status failed: " ++ e)

/-- The commit resolves, and is `HEAD`. -/
def resolveCommit (commit : String) : Script Effect (List Char) := do
  match ← git ["rev-parse", "HEAD"] w.head with
  | .error e => finish false ("git rev-parse HEAD failed: " ++ e)
  | .ok head =>
    match ← git ["rev-parse", "--verify", commit ++ "^\x7bcommit\x7d"] w.resolved with
    | .error _ => finish false ("commit " ++ commit ++ " does not resolve in " ++ cfg.repo)
    | .ok resolved =>
      if resolved ≠ head then
        finish false ("commit " ++ commit ++ " (" ++ String.ofList resolved ++
          ") is not the repo HEAD (" ++ String.ofList head ++
          "); check it out first (v1 builds HEAD in place)")
      else if isFullGitSha resolved then pure resolved
      else finish false ("resolved commit " ++ String.ofList resolved ++
        " is not a 40-char git sha")

def toolchain : Script Effect PUnit := do
  match ← runCmd cfg.cargoBin ["--version"] 30 w.cargoVersion with
  | .error _ => finish false ("cargo not runnable (tried `" ++ cfg.cargoBin ++
      "`) — the agentd user needs a build toolchain. Set AGENTD_CARGO to a shared cargo it can " ++
      "read, or provision one (see docs/self-update.md slice 3.1).")
  | .ok _ => pure ⟨⟩

/-! ### The lock -/

/-- The lock is written, as well as that goes. -/
def takeLock : Script Effect PUnit := if w.lockTaken then .tell .lock else pure ⟨⟩

/-- `clear_lock`. -/
def clearLock : Script Effect PUnit := if w.lockCleared then .tell .unlock else pure ⟨⟩

/-- The lock is cleared before the answer. -/
def release {α : Type} (ok : Bool) (msg : String) : Script Effect α := do
  clearLock w
  finish ok msg

/-! ### Stage 1: the review -/

section

variable (upper : Char → List Char) (isAlphabetic : Char → Bool)

/-- `collect_diff`. -/
def collectDiff (target : String) : Script Effect String := do
  let d ← match ← git ["rev-parse", "--verify", cfg.buildCommit ++ "^\x7bcommit\x7d"] w.prev with
    | .ok _ => git ["diff", "--no-color", cfg.buildCommit ++ ".." ++ target] w.diff
    | .error _ => git ["show", "--no-color", target] w.diff
  match d with
  | .ok s => pure (head s 12000)
  | .error e => pure ("(could not compute diff: " ++ e ++ ")")

/-- `review_diff`. -/
def reviewDiff (diff : String) : Script Effect ReviewVerdict :=
  if trim diff.toList = [] then
    pure (.safe "empty diff (same-commit rebuild) — nothing to review")
  else
    match w.review with
    | .ok text => .unwrap (parseVerdict upper isAlphabetic text)
    | .error e => pure (.block ("reviewer unavailable — failing closed: " ++ e))

def reviewStage (resolved : List Char) : Script Effect PUnit :=
  if cfg.reviewEnabled then do
    let diff ← collectDiff cfg w (String.ofList resolved)
    match ← reviewDiff w upper isAlphabetic diff with
    | .safe _ => pure ⟨⟩
    | .block why => release w false ("STAGE 1 review BLOCKED (daemon untouched): " ++ why)
  else pure ⟨⟩

end

/-! ### Stage 2: the isolated build -/

/-- `isolated_src_dir`. -/
def isolatedSrcDir (resolved : List Char) : String :=
  cfg.updateDir ++ "/src-" ++ String.ofList ((resolved.filter isAsciiHexdigit).take 12)

/-- `cleanup_isolated_src`. -/
def cleanupIsolatedSrc (dest : String) (o : Outcome) : Script Effect PUnit := do
  let _ ← git ["worktree", "remove", "--force", dest] o
  pure ⟨⟩

/-- The worktree, or a clone where it fails. -/
def addCheckout (dest resolved : String) : Script Effect (Except String PUnit) := do
  match ← git ["worktree", "add", "--detach", dest, resolved] w.worktree with
  | .ok _ => pure (.ok ⟨⟩)
  | .error wtErr => do
    cleanupIsolatedSrc dest w.worktreeCleanup
    match ← runCmd "git" ["clone", "--local", "--no-hardlinks", ".", dest] 120 w.clone with
    | .error e => pure (.error ("isolated checkout failed (worktree: " ++ wtErr ++ "; clone: " ++
        e ++ ")"))
    | .ok _ =>
      match ← git ["checkout", "--detach", resolved] w.checkout with
      | .error e => pure (.error ("isolated clone checkout " ++ resolved ++ " failed: " ++ e))
      | .ok _ => pure (.ok ⟨⟩)

/-- The checkout is of the commit, and has a lock file. -/
def verifyCheckout (dest : String) (resolved : List Char) :
    Script Effect (Except String PUnit) := do
  match ← git ["rev-parse", "HEAD"] w.isolatedHead with
  | .error e => pure (.error e)
  | .ok got =>
    if got ≠ resolved then do
      cleanupIsolatedSrc dest w.lastCleanup
      pure (.error ("isolated HEAD " ++ String.ofList got ++ " != requested " ++
        String.ofList resolved))
    else if w.lockFile then
      match w.readOnly with
      | some e => pure (.error ("make isolated src read-only: " ++ e))
      | none => pure (.ok ⟨⟩)
    else do
      cleanupIsolatedSrc dest w.lastCleanup
      pure (.error "isolated checkout has no Cargo.lock — --locked build refused")

/-- `prepare_isolated_checkout`. -/
def prepareIsolatedCheckout (resolved : List Char) : Script Effect (Except String PUnit) :=
  if isFullGitSha resolved then do
    cleanupIsolatedSrc (isolatedSrcDir cfg resolved) w.cleanup
    match w.srcParent with
    | some e => pure (.error ("mkdir isolated src parent: " ++ e))
    | none =>
      match ← addCheckout w (isolatedSrcDir cfg resolved) (String.ofList resolved) with
      | .error e => pure (.error e)
      | .ok _ => verifyCheckout w (isolatedSrcDir cfg resolved) resolved
  else pure (.error ("refusing isolated checkout of non-sha `" ++ String.ofList resolved ++ "`"))

def checkoutStage (resolved : List Char) : Script Effect PUnit := do
  match ← prepareIsolatedCheckout cfg w resolved with
  | .ok _ => pure ⟨⟩
  | .error e => release w false ("STAGE 2 isolated checkout failed (daemon untouched): " ++ e)

/-- The checkout is removed and the lock cleared before the answer. -/
def abandon {α : Type} (resolved : List Char) (ok : Bool) (msg : String) : Script Effect α := do
  cleanupIsolatedSrc (isolatedSrcDir cfg resolved) w.lastCleanup
  release w ok msg

def cargoTestArgs : List String := ["test", "--locked", "-p", "agentd"]

def cargoBuildArgs : List String := ["build", "--release", "--locked", "-p", "agentd"]

def buildStage (resolved : List Char) : Script Effect PUnit :=
  match w.targetRoot with
  | some e => abandon cfg w resolved false ("STAGE 2 mkdir target failed: " ++ e)
  | none => do
    match ← runCmd cfg.cargoBin cargoTestArgs cfg.buildTimeout w.test with
    | .error e =>
      abandon cfg w resolved false
        ("STAGE 2 `cargo test --locked -p agentd` failed (daemon untouched):\n" ++ e)
    | .ok _ =>
      match ← runCmd cfg.cargoBin cargoBuildArgs cfg.buildTimeout w.build with
      | .error e =>
        abandon cfg w resolved false
          ("STAGE 2 `cargo build --release --locked -p agentd` failed (daemon untouched):\n" ++ e)
      | .ok _ =>
        if w.builtExists then pure ⟨⟩
        else abandon cfg w resolved false ("build reported success but " ++ cfg.targetDir ++
          "/release/agentd is missing")

def dryRunGate (resolved : List Char) : Script Effect PUnit :=
  if dryRun args then
    abandon cfg w resolved true ("DRY RUN ok — review + locked isolated build passed for " ++
      String.ofList (textArg args "commit") ++ ". No swap requested.")
  else pure ⟨⟩

/-! ### Stage 3: the artifact and the request -/

/-- `sha256_file`. -/
def sha256File : SumOutput → Except String (List Char)
  | .error e => .error e
  | .ok (false, _, stderr) => .error (String.ofList stderr)
  | .ok (true, stdout, _) =>
    match (stdout.dropWhile isWhitespace).takeWhile (fun c => !isWhitespace c) with
    | [] => .error "empty sha256sum output"
    | c :: cs => .ok (c :: cs)

/-- `attest_and_stage`. -/
def attestAndStage : Except String (List Char) := do
  let shaBuilt ← sha256File w.builtSum
  if !(Utf8.len shaBuilt == 64 && shaBuilt.all isAsciiHexdigit) then
    .error ("sha256 of built binary looks wrong: " ++ String.ofList shaBuilt)
  else
    match w.stageBinary with
    | some e => .error e
    | none => do
      let shaStaged ← sha256File w.stagedSum
      if shaStaged ≠ shaBuilt then
        .error ("staged sha " ++ String.ofList shaStaged ++ " != built sha " ++
          String.ofList shaBuilt)
      else .ok shaStaged

def attestStage (resolved : List Char) : Script Effect (List Char) :=
  match attestAndStage w with
  | .ok sha => pure sha
  | .error e =>
    abandon cfg w resolved false ("STAGE 3 attest/stage failed (daemon untouched): " ++ e)

/-- The request of a call that passed. -/
def request (resolved sha : List Char) : SelfUpdateRequest where
  stagedSha256 := String.ofList sha
  targetCommit := String.ofList resolved
  prevCommit := cfg.buildCommit
  createdAt := w.now
  timeout := cfg.probeTimeout
  reason := String.ofList (textArg args "reason")

/-- `write_request`, and the answer. -/
def fileRequest (r : SelfUpdateRequest) : Script Effect PEmpty := do
  match w.writeRequest with
  | none => do
    .tell (.file r)
    finish true ("Gates passed (review + locked isolated build). Swap request filed for " ++
      String.ofList (textArg args "commit") ++ "; the watchdog will back up the current binary, " ++
      "swap, restart, and health-check — rolling back automatically if it doesn't come up " ++
      "healthy. This process is being replaced now; the outcome will appear on the next boot " ++
      "via Cerebro and /var/lib/agentd/update/\x7bconfirmed,rolled-back\x7d.json.")
  | some e => finish false ("failed to write request.json (daemon untouched): " ++ e)

/-! ### The call -/

variable (upper : Char → List Char) (isAlphabetic : Char → Bool)

/-- The stages of a call with a commit and a reason. -/
def stages : Script Effect PEmpty := do
  cleanTree cfg w
  let resolved ← resolveCommit cfg w (String.ofList (textArg args "commit"))
  toolchain cfg w
  takeLock w
  reviewStage cfg w upper isAlphabetic resolved
  checkoutStage cfg w resolved
  buildStage cfg w resolved
  dryRunGate cfg args w resolved
  let sha ← attestStage cfg w resolved
  cleanupIsolatedSrc (isolatedSrcDir cfg resolved) w.lastCleanup
  clearLock w
  fileRequest args w (request cfg args w resolved sha)

/-- `run_update`. -/
def runUpdate (inFlight : Bool) : Script Effect PEmpty :=
  if textArg args "commit" = [] ∨ textArg args "reason" = [] then
    finish false "apply_daemon_update requires `commit` and `reason`"
  else if inFlight then
    finish false ("a daemon update is already in flight (request.json/lock present) — wait for " ++
      "its outcome marker")
  else if w.repoExists then stages cfg args w upper isAlphabetic
  else finish false ("self-update repo not found at " ++ cfg.repo ++
    " (set AGENTD_SELF_UPDATE_REPO)")

/-! ### What is promised of a call -/

/-- The output of a command that went well. -/
def Outcome.text? : Outcome → Option (List Char)
  | .exited true stdout stderr => some (stdout ++ stderr)
  | _ => none

/-- A text can be cut to its last bytes: it has no more of them, or a character begins there. -/
def CutsAt (text : List Char) (max : ℕ) : Prop :=
  Utf8.len text ≤ max ∨ ∃ pre post, text = pre ++ post ∧ Utf8.len post = max

/-- The output of a command that fails can be cut. -/
def Outcome.Cuts : Outcome → Prop
  | .exited false stdout stderr => CutsAt (stdout ++ '\n' :: stderr) 4000
  | _ => True

@[simp] def World.commands : List Outcome :=
  [w.status, w.head, w.resolved, w.cargoVersion, w.prev, w.diff, w.cleanup, w.worktree,
    w.worktreeCleanup, w.clone, w.checkout, w.isolatedHead, w.test, w.build, w.lastCleanup]

/-- Each line that the scan of a review comes to can be read. -/
def Readable (text : List Char) : Prop :=
  ∀ earlier line later, lines text = earlier ++ line :: later →
    (∀ x ∈ later, Skipped upper x) → reading upper line ≠ .panic

/-- The calls whose texts can all be cut and read, and whose lock can be removed. -/
structure Calm : Prop where
  commands : ∀ o ∈ w.commands, o.Cuts
  status : ∀ text, w.status.text? = some text → CutsAt (trim text) 1000
  review : ∀ text, w.review = .ok text → Readable upper text
  unlocks : w.lockTaken = true → w.lockCleared = true

/-- The review let the diff pass. -/
def Reviewed (resolved : List Char) : Prop :=
  cfg.reviewEnabled = true →
    ∃ diff, (collectDiff cfg w (String.ofList resolved)).flow = .go diff ∧
      (trim diff.toList = [] ∨ ∃ text note, w.review = .ok text ∧
        parseVerdict upper isAlphabetic text = some (.safe note))

/-- Every gate passed, of a call that asks for a swap, and the two binaries have the same sum. -/
structure Passed (r : SelfUpdateRequest) : Prop where
  clean : w.status.text?.map trim = some []
  resolved : ∃ sha, w.head.text?.map trim = some sha ∧ w.resolved.text?.map trim = some sha ∧
    isFullGitSha sha = true ∧ r.targetCommit = String.ofList sha ∧
    Reviewed cfg w upper isAlphabetic sha ∧ w.isolatedHead.text?.map trim = some sha
  toolchain : w.cargoVersion.text? ≠ none
  locked : w.lockFile = true
  tested : w.test.text? ≠ none
  built : w.build.text? ≠ none ∧ w.builtExists = true
  live : dryRun args = false
  attested : ∃ sha, sha256File w.builtSum = .ok sha ∧ sha256File w.stagedSum = .ok sha ∧
    r.stagedSha256 = String.ofList sha

end

/-! ### The handler -/

/-- A call, with what it meets. -/
structure Call where
  args : Json
  world : World

/-- The handler's task: it waits for a call, or has effects of one still to do, or is gone. -/
inductive Handler
  | idle
  | running (call : Call) (rest : List Effect) (panics : Bool) (replies : List Reply)
  | dead

/-- The two files, the handler, and two ledgers: the answers of each call that has returned, and
the requests that were written, each with its call. -/
structure State where
  lock : Bool
  request : Option SelfUpdateRequest
  handler : Handler
  answers : List (List Reply)
  filed : List (Call × SelfUpdateRequest)

/-- `in_flight`. -/
def State.inFlight (s : State) : Bool := s.request.isSome || s.lock

def State.init : State := ⟨false, none, .idle, [], []⟩

/-- What happens to the handler. -/
inductive Event
  | call (call : Call)
  | tick
  | consume
  | restart

section Step

variable (cfg : Config) (upper : Char → List Char) (isAlphabetic : Char → Bool)

/-- What an effect of a call leaves on the disk and in the ledgers. -/
def State.apply (s : State) (call : Call) : Effect → State
  | .lock => { s with lock := true }
  | .unlock => { s with lock := false }
  | .file r => { s with request := some r, filed := s.filed ++ [(call, r)] }
  | .emit _ => s

/-- The answers that an effect adds to. -/
def Effect.replies : Effect → List Reply
  | .emit reply => [reply]
  | _ => []

/-- The task goes on by one effect, or has come to the end of the call. -/
def State.tick (s : State) : State :=
  match s.handler with
  | .running call (e :: rest) panics replies =>
    { s.apply call e with handler := .running call rest panics (replies ++ e.replies) }
  | .running _ [] true _ => { s with handler := .dead }
  | .running _ [] false replies => { s with handler := .idle, answers := s.answers ++ [replies] }
  | _ => s

/-- The effects of a call, and whether it stops after them. -/
def State.begin (s : State) (call : Call) : Handler :=
  let script := runUpdate cfg call.args call.world upper isAlphabetic s.inFlight
  match script.flow with
  | .panic => .running call script.effects true []
  | _ => .running call script.effects false []

/-- One event: a call waits for the one before it, the watchdog takes the request, and a restart
leaves the files. -/
def step (s : State) : Event → State × Unit
  | .call call =>
    match s.handler with
    | .idle => ({ s with handler := s.begin cfg upper isAlphabetic call }, ())
    | _ => (s, ())
  | .tick => (s.tick, ())
  | .consume => ({ s with request := none }, ())
  | .restart => ({ s with handler := .idle }, ())

/-- The handler is there, and a call under way comes to its end, with one answer and without the
lock; each call that returned was answered once; where none is under way the lock is gone, and an
update is in flight only for a request; each request passed every gate. -/
structure Unwedged (s : State) : Prop where
  alive : s.handler ≠ .dead
  returns : ∀ {call rest panics replies}, s.handler = .running call rest panics replies →
    ∃ n reply, (State.tick^[n] s).handler = .idle ∧ (State.tick^[n] s).lock = false ∧
      (State.tick^[n] s).answers = s.answers ++ [[reply]]
  answered : ∀ replies ∈ s.answers, replies.length = 1
  released : s.handler = .idle → s.lock = false
  waits : s.handler = .idle → s.inFlight = true → s.request ≠ none
  gated : ∀ f ∈ s.filed, Passed cfg f.1.args f.1.world upper isAlphabetic f.2

/-- A call is calm, and the daemon is not stopped while the lock is there. -/
def Harmless (s : State) : Event → Prop
  | .call call => Calm call.world upper
  | .restart => s.lock = false
  | _ => True

end Step

/-! ### One call -/

/-- The lock, the answers and the requests of a call so far. -/
structure Track where
  lock : Bool
  replies : List Reply
  filed : List SelfUpdateRequest

def Track.step (x : Track) : Effect → Track
  | .lock => { x with lock := true }
  | .unlock => { x with lock := false }
  | .file r => { x with filed := x.filed ++ [r] }
  | .emit reply => { x with replies := x.replies ++ [reply] }

/-- Nothing was answered or written yet. -/
def Track.silent (lock : Bool) : Track := ⟨lock, [], []⟩

/-- The call is answered once, without the lock, and what was written passed. -/
structure Track.Closed (P : SelfUpdateRequest → Prop) (x : Track) : Prop where
  lock : x.lock = false
  replies : x.replies.length = 1
  filed : ∀ r ∈ x.filed, P r

section Goes

variable {P : SelfUpdateRequest → Prop} {α β : Type} {m n k : Bool}

/-- From the lock as in `m` the script comes to a value with `F`, with the lock as in `n` and
nothing answered; or it has closed the call. -/
def Goes (P : SelfUpdateRequest → Prop) (m n : Bool) (s : Script Effect α) (F : α → Prop) : Prop :=
  s.Keeps Track.step (· = .silent m) (fun a x => x = .silent n ∧ F a) (Track.Closed P)

theorem Goes.pure {F : α → Prop} {a : α} (h : F a) : Goes P m m (pure a) F :=
  Script.Keeps.pure fun _ hx => ⟨hx, h⟩

theorem Goes.unwrap {F : α → Prop} {o : Option α} {a : α} (ho : o = some a) (h : F a) :
    Goes P m m (.unwrap o) F :=
  Script.Keeps.unwrap ho fun _ hx => ⟨hx, h⟩

theorem Goes.bind {F : α → Prop} {G : β → Prop} {s : Script Effect α} {f : α → Script Effect β}
    (h : Goes P m n s F) (hf : ∀ a, s.flow = .go a → F a → Goes P n k (f a) G) :
    Goes P m k (s >>= f) G :=
  Script.Keeps.bind h fun a ha x hx => hf a ha hx.2 x hx.1

theorem Goes.weaken {F G : α → Prop} {s : Script Effect α} (h : Goes P m n s F)
    (hFG : ∀ a, F a → G a) : Goes P m n s G :=
  Script.Keeps.weaken h (fun _ hx => hx) fun a _ hx => ⟨hx.1, hFG a hx.2⟩

/-- An answer without the lock closes the call. -/
theorem finish_goes {F : α → Prop} (ok : Bool) (msg : String) :
    Goes P false n (finish ok msg) F :=
  Script.Keeps.answer fun _ hx => hx ▸ ⟨rfl, rfl, fun _ hr => by cases hr⟩

/-! ### Commands -/

theorem CutsAt.tail {text : List Char} {max : ℕ} (h : CutsAt text max) :
    ∃ t, tail text max = some t := by
  by_cases hlen : Utf8.len text ≤ max
  · exact ⟨_, if_pos hlen⟩
  · obtain hle | ⟨pre, post, rfl, hpost⟩ := h
    · exact absurd hle hlen
    · have hdrop : Utf8.drop? (pre ++ post) (Utf8.len (pre ++ post) - max) = some post :=
        Utf8.drop?_eq_some_iff.mpr ⟨pre, rfl, by rw [Utf8.len_append, hpost]; omega⟩
      exact ⟨_, by rw [UpdateHandler.tail, if_neg hlen, hdrop]; rfl⟩

variable {o : Outcome}

theorem runCmd_goes (ho : o.Cuts) (program : String) (args : List String) (secs : ℕ) :
    Goes P m m (runCmd program args secs o) fun out => ∀ text, out = .ok text →
      o.text? = some text := by
  match o with
  | .spawnFailed e => exact .pure fun _ h => by cases h
  | .waitFailed e => exact .pure fun _ h => by cases h
  | .timedOut => exact .pure fun _ h => by cases h
  | .exited true stdout stderr => exact .pure fun _ h => by cases h; rfl
  | .exited false stdout stderr =>
    obtain ⟨t, ht⟩ := CutsAt.tail ho
    exact .bind (F := fun _ => True) (.unwrap ht trivial) fun _ _ _ => .pure fun _ h => by cases h

theorem git_goes (ho : o.Cuts) (args : List String) :
    Goes P m m (git args o) fun out => ∀ text, out = .ok text →
      o.text?.map trim = some text :=
  .bind (runCmd_goes ho _ _ _) fun out _ hout => .pure fun text h => by
    cases out with
    | error e => cases h
    | ok raw =>
      cases h
      rw [hout raw rfl]
      rfl

theorem cleanupIsolatedSrc_goes (ho : o.Cuts) (dest : String) :
    Goes P m m (cleanupIsolatedSrc dest o) fun _ => True :=
  .bind (git_goes ho _) fun _ _ _ => .pure trivial

/-! ### Stages -/

variable {cfg : Config} {args : Json} {w : World} {upper : Char → List Char}
  {isAlphabetic : Char → Bool}

theorem cleanTree_goes (h : Calm w upper) :
    Goes P false false (cleanTree cfg w) fun _ => w.status.text?.map trim = some [] := by
  refine .bind (git_goes (h.commands _ (by simp)) _) fun out _ hout => ?_
  match out with
  | .ok [] => exact .pure (hout [] rfl)
  | .ok (c :: cs) =>
    obtain ⟨text, htext, htrim⟩ := Option.map_eq_some_iff.mp (hout _ rfl)
    obtain ⟨t, ht⟩ := CutsAt.tail (htrim ▸ h.status text htext)
    exact .bind (F := fun _ => True) (.unwrap ht trivial) fun _ _ _ => finish_goes _ _
  | .error e => exact finish_goes _ _

theorem resolveCommit_goes (h : Calm w upper) (commit : String) :
    Goes P false false (resolveCommit cfg w commit) fun sha =>
      w.head.text?.map trim = some sha ∧ w.resolved.text?.map trim = some sha ∧
        isFullGitSha sha = true := by
  refine .bind (git_goes (h.commands _ (by simp)) _) fun head _ hhead => ?_
  cases head with
  | error e => exact finish_goes _ _
  | ok head =>
    refine .bind (git_goes (h.commands _ (by simp)) _) fun out _ hout => ?_
    cases out with
    | error e => exact finish_goes _ _
    | ok resolved =>
      show Goes P false false (if resolved ≠ head then _ else _) _
      split_ifs with hne hsha
      · exact finish_goes _ _
      · exact .pure ⟨not_not.mp hne ▸ hhead head rfl, hout resolved rfl, hsha⟩
      · exact finish_goes _ _

theorem toolchain_goes (h : Calm w upper) :
    Goes P false false (toolchain cfg w) fun _ => w.cargoVersion.text? ≠ none := by
  refine .bind (runCmd_goes (h.commands _ (by simp)) _ _ _) fun out _ hout => ?_
  cases out with
  | error e => exact finish_goes _ _
  | ok text => exact .pure fun hnone => by simp [hout text rfl] at hnone

theorem takeLock_goes : Goes P false w.lockTaken (takeLock w) fun _ => True := by
  rw [takeLock]
  split_ifs with h
  · exact Script.Keeps.tell fun _ hx => ⟨hx ▸ by rw [h]; rfl, trivial⟩
  · exact fun _ hx => ⟨hx.trans (by rw [Bool.eq_false_iff.mpr h]), trivial⟩

/-- Where the lock can be removed it is gone, and else it was not there. -/
theorem clearLock_goes (h : Calm w upper) :
    Goes P w.lockTaken false (clearLock w) fun _ => True := by
  rw [clearLock]
  split_ifs with hclear
  · exact Script.Keeps.tell fun _ hx => ⟨hx ▸ rfl, trivial⟩
  · have htaken : w.lockTaken = false := Bool.eq_false_iff.mpr fun h' => hclear (h.unlocks h')
    exact fun _ hx => ⟨hx.trans (by rw [htaken]), trivial⟩

theorem release_goes {F : α → Prop} (h : Calm w upper) (ok : Bool) (msg : String) :
    Goes P w.lockTaken n (release w ok msg) F :=
  .bind (clearLock_goes h) fun _ _ _ => finish_goes _ _

theorem abandon_goes {F : α → Prop} (h : Calm w upper) (resolved : List Char) (ok : Bool)
    (msg : String) : Goes P w.lockTaken n (abandon cfg w resolved ok msg) F :=
  .bind (cleanupIsolatedSrc_goes (h.commands _ (by simp)) _) fun _ _ _ => release_goes h _ _

theorem collectDiff_goes (h : Calm w upper) (target : String) :
    Goes P m m (collectDiff cfg w target) fun _ => True := by
  refine .bind (git_goes (h.commands _ (by simp)) _) fun prev _ _ => ?_
  have hdiff : ∀ args, Goes P m m (git args w.diff) fun _ => True := fun args =>
    (git_goes (h.commands _ (by simp)) args).weaken fun _ _ => trivial
  cases prev with
  | ok _ => exact .bind (hdiff _) fun out _ _ => by cases out <;> exact .pure trivial
  | error _ => exact .bind (hdiff _) fun out _ _ => by cases out <;> exact .pure trivial

theorem Readable.parseVerdict {text : List Char} (h : Readable upper text)
    (isAlphabetic : Char → Bool) : ∃ v, parseVerdict upper isAlphabetic text = some v := by
  obtain ⟨why, hwhy⟩ | ⟨later, line, earlier, hreverse, hlater, hdecides⟩ :=
    scan_cases upper isAlphabetic text (lines text).reverse
  · exact ⟨_, hwhy⟩
  · have hlines : lines text = earlier.reverse ++ line :: later.reverse := by
      rw [← List.reverse_reverse (lines text), hreverse]
      simp
    have hlater' : ∀ x ∈ later.reverse, Skipped upper x := fun x hx =>
      hlater x (List.mem_reverse.mp hx)
    obtain hpanic | hstarts := hdecides
    · exact absurd hpanic (h _ _ _ hlines hlater')
    · obtain ⟨note, hnote⟩ := hstarts.scan_eq text earlier
      exact ⟨.safe note, by
        rw [parseVerdict_of_decides hlines hlater', List.reverse_reverse, hnote]⟩

theorem reviewDiff_goes (h : Calm w upper) (diff : String) :
    Goes P m m (reviewDiff w upper isAlphabetic diff) fun v => ∀ note, v = .safe note →
      trim diff.toList = [] ∨ ∃ text note, w.review = .ok text ∧
        parseVerdict upper isAlphabetic text = some (.safe note) := by
  rw [reviewDiff]
  split_ifs with hempty
  · exact .pure fun _ _ => .inl hempty
  · split
    next text hreview =>
      obtain ⟨v, hv⟩ := (h.review text hreview).parseVerdict isAlphabetic
      exact .unwrap hv fun note hnote => .inr ⟨text, note, hreview, hnote ▸ hv⟩
    next e _ => exact .pure fun _ hnote => by cases hnote

theorem reviewStage_goes (h : Calm w upper) (resolved : List Char) :
    Goes P w.lockTaken w.lockTaken (reviewStage cfg w upper isAlphabetic resolved) fun _ =>
      Reviewed cfg w upper isAlphabetic resolved := by
  rw [reviewStage]
  split_ifs with henabled
  · refine .bind (collectDiff_goes h _) fun diff hdiff _ => ?_
    refine .bind (reviewDiff_goes h diff) fun v _ hv => ?_
    cases v with
    | safe note => exact .pure fun _ => ⟨diff, hdiff, hv note rfl⟩
    | block why => exact release_goes h _ _
  · exact .pure fun h' => absurd h' henabled

theorem addCheckout_goes (h : Calm w upper) (dest resolved : String) :
    Goes P m m (addCheckout w dest resolved) fun _ => True := by
  refine .bind (git_goes (h.commands _ (by simp)) _) fun out _ _ => ?_
  cases out with
  | ok _ => exact .pure trivial
  | error wtErr =>
    refine .bind (cleanupIsolatedSrc_goes (h.commands _ (by simp)) _) fun _ _ _ => ?_
    refine .bind (runCmd_goes (h.commands _ (by simp)) _ _ _) fun out _ _ => ?_
    cases out with
    | error e => exact .pure trivial
    | ok _ =>
      refine .bind (git_goes (h.commands _ (by simp)) _) fun out _ _ => ?_
      cases out <;> exact .pure trivial

theorem verifyCheckout_goes (h : Calm w upper) (dest : String) (resolved : List Char) :
    Goes P m m (verifyCheckout w dest resolved) fun out => ∀ u, out = .ok u →
      w.isolatedHead.text?.map trim = some resolved ∧ w.lockFile = true := by
  refine .bind (git_goes (h.commands _ (by simp)) _) fun out _ hout => ?_
  have hlast : ∀ e : String, Goes P m m (do
      cleanupIsolatedSrc dest w.lastCleanup
      pure (.error e)) fun out : Except String PUnit => ∀ u, out = .ok u →
        w.isolatedHead.text?.map trim = some resolved ∧ w.lockFile = true := fun e =>
    .bind (cleanupIsolatedSrc_goes (h.commands _ (by simp)) _) fun _ _ _ =>
      .pure fun _ h => by cases h
  cases out with
  | error e => exact .pure fun _ h => by cases h
  | ok got =>
    show Goes P m m (if got ≠ resolved then _ else _) _
    split_ifs with hne hlock
    · exact hlast _
    · cases w.readOnly with
      | some e => exact .pure fun _ h => by cases h
      | none => exact .pure fun _ _ => ⟨not_not.mp hne ▸ hout got rfl, hlock⟩
    · exact hlast _

theorem prepareIsolatedCheckout_goes (h : Calm w upper) (resolved : List Char) :
    Goes P m m (prepareIsolatedCheckout cfg w resolved) fun out => ∀ u, out = .ok u →
      w.isolatedHead.text?.map trim = some resolved ∧ w.lockFile = true := by
  rw [prepareIsolatedCheckout]
  split_ifs with hsha
  · refine .bind (cleanupIsolatedSrc_goes (h.commands _ (by simp)) _) fun _ _ _ => ?_
    cases w.srcParent with
    | some e => exact .pure fun _ h => by cases h
    | none =>
      refine .bind (addCheckout_goes h _ _) fun out _ _ => ?_
      cases out with
      | error e => exact .pure fun _ h => by cases h
      | ok _ => exact verifyCheckout_goes h _ _
  · exact .pure fun _ h => by cases h

theorem checkoutStage_goes (h : Calm w upper) (resolved : List Char) :
    Goes P w.lockTaken w.lockTaken (checkoutStage cfg w resolved) fun _ =>
      w.isolatedHead.text?.map trim = some resolved ∧ w.lockFile = true := by
  refine .bind (prepareIsolatedCheckout_goes h resolved) fun out _ hout => ?_
  cases out with
  | ok u => exact .pure (hout u rfl)
  | error e => exact release_goes h _ _

theorem buildStage_goes (h : Calm w upper) (resolved : List Char) :
    Goes P w.lockTaken w.lockTaken (buildStage cfg w resolved) fun _ =>
      w.test.text? ≠ none ∧ w.build.text? ≠ none ∧ w.builtExists = true := by
  rw [buildStage]
  split
  · exact abandon_goes h _ _ _
  refine .bind (runCmd_goes (h.commands _ (by simp)) _ _ _) fun out _ htest => ?_
  cases out with
  | error e => exact abandon_goes h _ _ _
  | ok test =>
    refine .bind (runCmd_goes (h.commands _ (by simp)) _ _ _) fun out _ hbuild => ?_
    cases out with
    | error e => exact abandon_goes h _ _ _
    | ok build =>
      show Goes P _ _ (if w.builtExists = true then _ else _) _
      split_ifs with hexists
      · exact .pure ⟨by simp [htest test rfl], by simp [hbuild build rfl], hexists⟩
      · exact abandon_goes h _ _ _

theorem dryRunGate_goes (h : Calm w upper) (resolved : List Char) :
    Goes P w.lockTaken w.lockTaken (dryRunGate cfg args w resolved) fun _ =>
      dryRun args = false := by
  rw [dryRunGate]
  split_ifs with hdry
  · exact abandon_goes h _ _ _
  · exact .pure (Bool.eq_false_iff.mpr hdry)

/-- The sum that is attested is that of both binaries. -/
theorem attestAndStage_eq_ok {sha : List Char} (h : attestAndStage w = .ok sha) :
    sha256File w.builtSum = .ok sha ∧ sha256File w.stagedSum = .ok sha := by
  cases hbuilt : sha256File w.builtSum with
  | error e => simp [attestAndStage, hbuilt, bind, Except.bind] at h
  | ok built =>
    cases hstage : w.stageBinary with
    | some e =>
      simp only [attestAndStage, hbuilt, hstage, bind, Except.bind] at h
      split_ifs at h
    | none =>
      cases hstaged : sha256File w.stagedSum with
      | error e =>
        simp only [attestAndStage, hbuilt, hstage, hstaged, bind, Except.bind] at h
        split_ifs at h
      | ok staged =>
        simp only [attestAndStage, hbuilt, hstage, hstaged, bind, Except.bind] at h
        split_ifs at h with hwrong hne
        cases h
        exact ⟨congrArg _ (not_not.mp hne).symm, rfl⟩

theorem attestStage_goes (h : Calm w upper) (resolved : List Char) :
    Goes P w.lockTaken w.lockTaken (attestStage cfg w resolved) fun sha =>
      sha256File w.builtSum = .ok sha ∧ sha256File w.stagedSum = .ok sha := by
  rw [attestStage]
  split
  next sha hsha => exact .pure (attestAndStage_eq_ok hsha)
  next e _ => exact abandon_goes h _ _ _

theorem fileRequest_goes (r : SelfUpdateRequest) (hr : P r) :
    Goes P false n (fileRequest args w r) fun _ => True := by
  rw [fileRequest]
  split
  · exact fun _ hx => ⟨hx ▸ rfl, hx ▸ rfl, fun q hq => by
      subst hx
      obtain rfl := List.mem_singleton.mp hq
      exact hr⟩
  · exact finish_goes _ _

theorem stages_goes (h : Calm w upper) :
    Goes (Passed cfg args w upper isAlphabetic) false n (stages cfg args w upper isAlphabetic)
      fun _ => True := by
  refine .bind (cleanTree_goes h) fun _ _ hclean => ?_
  refine .bind (resolveCommit_goes h _) fun resolved _ ⟨hhead, hresolved, hsha⟩ => ?_
  refine .bind (toolchain_goes h) fun _ _ htoolchain => ?_
  refine .bind takeLock_goes fun _ _ _ => ?_
  refine .bind (reviewStage_goes h resolved) fun _ _ hreviewed => ?_
  refine .bind (checkoutStage_goes h resolved) fun _ _ ⟨hisolated, hlocked⟩ => ?_
  refine .bind (buildStage_goes h resolved) fun _ _ ⟨htested, hbuilt⟩ => ?_
  refine .bind (dryRunGate_goes h resolved) fun _ _ hlive => ?_
  refine .bind (attestStage_goes h resolved) fun sha _ ⟨hbuiltSum, hstagedSum⟩ => ?_
  refine .bind (cleanupIsolatedSrc_goes (h.commands _ (by simp)) _) fun _ _ _ => ?_
  refine .bind (clearLock_goes h) fun _ _ _ => fileRequest_goes _ ?_
  exact {
    clean := hclean
    resolved := ⟨resolved, hhead, hresolved, hsha, rfl, hreviewed, hisolated⟩
    toolchain := htoolchain
    locked := hlocked
    tested := htested
    built := hbuilt
    live := hlive
    attested := ⟨sha, hbuiltSum, hstagedSum, rfl⟩ }

/-- **A calm call**, without the lock, is answered once and leaves no lock; what it writes has
passed every gate. -/
theorem runUpdate_goes (h : Calm w upper) (inFlight : Bool) :
    Goes (Passed cfg args w upper isAlphabetic) false n
      (runUpdate cfg args w upper isAlphabetic inFlight) fun _ => True := by
  rw [runUpdate]
  split_ifs
  · exact finish_goes _ _
  · exact finish_goes _ _
  · exact stages_goes h
  · exact finish_goes _ _

end Goes

/-! ### Runs -/

section Runs

variable {cfg : Config} {upper : Char → List Char} {isAlphabetic : Char → Bool} {s : State}

/-- Where the handler stands: between two calls there is no lock, and within one the effects that
are still to do close it. -/
def Standing (cfg : Config) (upper : Char → List Char) (isAlphabetic : Char → Bool) (lock : Bool) :
    Handler → Prop
  | .idle => lock = false
  | .running call rest panics replies => panics = false ∧ ∃ filed,
      (rest.foldl Track.step ⟨lock, replies, filed⟩).Closed
        (Passed cfg call.args call.world upper isAlphabetic)
  | .dead => False

/-- The invariant of the harmless runs. -/
structure Law (cfg : Config) (upper : Char → List Char) (isAlphabetic : Char → Bool) (s : State) :
    Prop where
  answered : ∀ replies ∈ s.answers, replies.length = 1
  gated : ∀ f ∈ s.filed, Passed cfg f.1.args f.1.world upper isAlphabetic f.2
  standing : Standing cfg upper isAlphabetic s.lock s.handler

theorem Law.init : Law cfg upper isAlphabetic .init :=
  ⟨by simp [State.init], by simp [State.init], rfl⟩

/-- What was written stays in the ledger. -/
theorem mem_filed_foldl (rest : List Effect) {x : Track} {r : SelfUpdateRequest}
    (h : r ∈ x.filed) : r ∈ (rest.foldl Track.step x).filed := by
  induction rest generalizing x with
  | nil => exact h
  | cons e rest ih =>
    refine ih ?_
    cases e with
    | file q => exact List.mem_append_left _ h
    | lock | unlock | emit => exact h

theorem Law.begin (h : Law cfg upper isAlphabetic s) (hidle : s.handler = .idle) {call : Call}
    (hcalm : Calm call.world upper) :
    Law cfg upper isAlphabetic { s with handler := s.begin cfg upper isAlphabetic call } := by
  have hlock : s.lock = false := by
    have hstanding := h.standing
    rwa [hidle] at hstanding
  refine ⟨h.answered, h.gated, ?_⟩
  have hgoes : Goes (Passed cfg call.args call.world upper isAlphabetic) false false
      (runUpdate cfg call.args call.world upper isAlphabetic s.inFlight) fun _ => True :=
    runUpdate_goes hcalm s.inFlight
  have hclosed := hgoes (.silent false) rfl
  show Standing _ _ _ s.lock (s.begin cfg upper isAlphabetic call)
  rw [State.begin, hlock]
  cases hflow : (runUpdate cfg call.args call.world upper isAlphabetic s.inFlight).flow with
  | go a => exact a.elim
  | done =>
    rw [hflow] at hclosed
    exact ⟨rfl, [], hclosed⟩
  | panic =>
    rw [hflow] at hclosed
    exact hclosed.elim

theorem Law.tick (h : Law cfg upper isAlphabetic s) : Law cfg upper isAlphabetic s.tick := by
  have hstanding := h.standing
  rw [State.tick]
  split
  next call e rest panics replies hrunning =>
    rw [hrunning] at hstanding
    obtain ⟨hpanics, filed, hclosed⟩ := hstanding
    cases e with
    | lock | unlock => exact ⟨h.answered, h.gated, hpanics, filed, by simpa [Effect.replies]⟩
    | emit reply => exact ⟨h.answered, h.gated, hpanics, filed, hclosed⟩
    | file r =>
      refine ⟨h.answered, fun f hf => ?_, hpanics, filed ++ [r], by simpa [Effect.replies]⟩
      obtain hf | hf := List.mem_append.mp hf
      · exact h.gated f hf
      · obtain rfl := List.mem_singleton.mp hf
        exact hclosed.filed r (mem_filed_foldl rest (List.mem_append_right _ (.head _)))
  next hrunning =>
    rw [hrunning] at hstanding
    exact absurd hstanding.1 Bool.noConfusion
  next call replies hrunning =>
    rw [hrunning] at hstanding
    obtain ⟨-, filed, hclosed⟩ := hstanding
    refine ⟨fun rs hrs => ?_, h.gated, hclosed.lock⟩
    obtain hrs | hrs := List.mem_append.mp hrs
    · exact h.answered rs hrs
    · obtain rfl := List.mem_singleton.mp hrs
      exact hclosed.replies
  next => exact h

/-- A call that is left alone returns. -/
theorem Law.returns (h : Law cfg upper isAlphabetic s) {call : Call} {rest : List Effect}
    {panics : Bool} {replies : List Reply}
    (hrunning : s.handler = .running call rest panics replies) :
    ∃ n reply, (State.tick^[n] s).handler = .idle ∧ (State.tick^[n] s).lock = false ∧
      (State.tick^[n] s).answers = s.answers ++ [[reply]] := by
  induction rest generalizing s replies with
  | nil =>
    have hstanding := h.standing
    rw [hrunning] at hstanding
    obtain ⟨rfl, filed, hclosed⟩ := hstanding
    obtain ⟨reply, rfl⟩ := List.length_eq_one_iff.mp hclosed.replies
    refine ⟨1, reply, ?_⟩
    rw [Function.iterate_one, State.tick, hrunning]
    exact ⟨rfl, hclosed.lock, rfl⟩
  | cons e rest ih =>
    have htick : s.tick.handler = .running call rest panics (replies ++ e.replies) := by
      rw [State.tick, hrunning]
    have hanswers : s.tick.answers = s.answers := by
      rw [State.tick, hrunning]
      cases e <;> rfl
    obtain ⟨n, reply, hidle, hlock, hend⟩ := ih h.tick htick
    exact ⟨n + 1, reply, hidle, hlock, hanswers ▸ hend⟩

theorem Law.step (h : Law cfg upper isAlphabetic s) (e : Event) (he : Harmless upper s e) :
    Law cfg upper isAlphabetic (step cfg upper isAlphabetic s e).1 := by
  cases e with
  | call call =>
    cases hhandler : s.handler with
    | idle =>
      rw [UpdateHandler.step, hhandler]
      exact h.begin hhandler he
    | running | dead =>
      rw [UpdateHandler.step, hhandler]
      exact h
  | tick => exact h.tick
  | consume => exact ⟨h.answered, h.gated, h.standing⟩
  | restart => exact ⟨h.answered, h.gated, he⟩

theorem Law.unwedged (h : Law cfg upper isAlphabetic s) : Unwedged cfg upper isAlphabetic s := by
  have hreleased : s.handler = .idle → s.lock = false := fun hidle => by
    have hstanding := h.standing
    rwa [hidle] at hstanding
  refine ⟨fun hdead => ?_, h.returns, h.answered, hreleased, fun hidle hflight => ?_, h.gated⟩
  · have hstanding := h.standing
    rwa [hdead] at hstanding
  · rw [State.inFlight, hreleased hidle, Bool.or_false] at hflight
    exact Option.isSome_iff_ne_none.mp hflight

/-- **In every run of calm calls, in which the daemon is not stopped while the lock is there, the
handler does not wedge.** -/
theorem unwedged_of_harmless (cfg : Config) (upper : Char → List Char) (isAlphabetic : Char → Bool)
    (events : List Event)
    (h : Run.Always (step cfg upper isAlphabetic) .init (fun _ s e => Harmless upper s e) events) :
    Unwedged cfg upper isAlphabetic (Run.final (step cfg upper isAlphabetic) .init events) :=
  Law.unwedged <| Run.invariant (I := fun _ s => Law cfg upper isAlphabetic s) Law.init
    (fun _ _ e hs he => hs.step e he) h

end Runs

/-! ### Two runs that wedge -/

def sampleConfig : Config where
  repo := "r"
  updateDir := "u"
  targetDir := "t"
  cargoBin := "cargo"
  buildCommit := "b"
  buildTimeout := 1800
  probeTimeout := 120
  reviewEnabled := false

def succeeds (stdout : List Char) : Outcome := .exited true stdout []

/-- A call on whose way everything goes well. -/
def sampleWorld : World where
  repoExists := true
  status := succeeds []
  head := succeeds (List.replicate 40 'a')
  resolved := succeeds (List.replicate 40 'a')
  cargoVersion := succeeds []
  lockTaken := true
  lockCleared := true
  prev := succeeds []
  diff := succeeds []
  review := .error "no model"
  cleanup := succeeds []
  srcParent := none
  worktree := succeeds []
  worktreeCleanup := succeeds []
  clone := succeeds []
  checkout := succeeds []
  isolatedHead := succeeds (List.replicate 40 'a')
  lockFile := true
  readOnly := none
  targetRoot := none
  test := succeeds []
  build := succeeds []
  builtExists := true
  lastCleanup := succeeds []
  builtSum := .ok (true, List.replicate 64 'a', [])
  stageBinary := none
  stagedSum := .ok (true, List.replicate 64 'a', [])
  now := 0
  writeRequest := none

def sampleArgs : Json := .object [("commit", .string "HEAD"), ("reason", .string "r")]

/-- The tests fail with a text of two-byte characters and a line feed. -/
def accented : World :=
  { sampleWorld with test := .exited false (List.replicate 2000 'é') [] }

def Handler.isDead : Handler → Bool
  | .dead => true
  | _ => false

theorem Handler.eq_dead {handler : Handler} (h : handler.isDead = true) : handler = .dead := by
  cases handler with
  | dead => rfl
  | idle | running => cases h

/-- A restart during the tests leaves the lock, and a text that is cut inside a character ends the
handler. -/
theorem not_unwedged :
    (¬ Unwedged sampleConfig asciiUpper Char.isAlpha
      (Run.final (step sampleConfig asciiUpper Char.isAlpha) .init
        [.call ⟨sampleArgs, sampleWorld⟩, .tick, .restart])) ∧
    ¬ Unwedged sampleConfig asciiUpper Char.isAlpha
      (Run.final (step sampleConfig asciiUpper Char.isAlpha) .init
        [.call ⟨sampleArgs, accented⟩, .tick, .tick]) := by
  refine ⟨fun h => ?_, fun h => ?_⟩
  · have hlock : (Run.final (step sampleConfig asciiUpper Char.isAlpha) .init
        [.call ⟨sampleArgs, sampleWorld⟩, .tick, .restart]).lock = true := by decide +kernel
    exact Bool.noConfusion ((h.released rfl).symm.trans hlock)
  · have hdead : (Run.final (step sampleConfig asciiUpper Char.isAlpha) .init
        [.call ⟨sampleArgs, accented⟩, .tick, .tick]).handler.isDead = true := by decide +kernel
    exact h.alive (Handler.eq_dead hdead)

theorem sampleWorld_calm : Calm sampleWorld asciiUpper where
  commands o ho := by
    simp only [World.commands, sampleWorld, List.mem_cons, List.not_mem_nil, or_false] at ho
    rcases ho with rfl | rfl | rfl | rfl | rfl | rfl | rfl | rfl | rfl | rfl | rfl | rfl | rfl |
      rfl | rfl <;> trivial
  status text htext := by
    cases htext
    exact .inl (by decide)
  review text htext := by cases htext
  unlocks _ := rfl

theorem unwedged_of_harmless_filed :
    Unwedged sampleConfig asciiUpper Char.isAlpha
      (Run.final (step sampleConfig asciiUpper Char.isAlpha) .init
        [.call ⟨sampleArgs, sampleWorld⟩, .tick, .tick, .tick, .tick, .tick]) :=
  unwedged_of_harmless _ _ _ _ fun before e after h => by
    have hmem : e ∈ before ++ e :: after := List.mem_append_right _ (.head _)
    rw [← h] at hmem
    simp only [List.mem_cons, List.not_mem_nil, or_false, or_self] at hmem
    obtain rfl | rfl := hmem
    · exact sampleWorld_calm
    · trivial

end ApexOS.Deploy.UpdateHandler
