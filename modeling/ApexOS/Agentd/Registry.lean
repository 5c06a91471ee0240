import ApexOS.Agentd.State
import Mathlib.Data.UInt

/-!
# The plugin registry

The arms of `Supervisor::run` in `agentd/crates/plugins/src/supervisor.rs` that start, stop and
restart plugins, `claim_tool_name` of `tool_claim.rs`, which decides who gets a tool's name, and
the plugin path of `dispatch_tool`, which stamps the caller's identity on a call.

A plugin id may be attached many times. Each attachment is an *instance*, numbered here by when it
was attached; the supervisor knows only the id. Every instance has a watcher that reports its exit
as a `PluginDied` with the id alone, some time after its client was dropped. A unix socket that
cannot be reached leaves a watcher without an instance. How an attachment turns out is part of the
command.

## Main definitions

* `ToolClaim.claimToolName`: may this plugin have this name
* `Registry.step`: the commands, with the plugin events they emit
* `Registry.dispatchPlugin`: the call as the plugin gets it
* `Registry.RegisteredUntil`: an instance stays registered until a command for its id or its own
  exit
* `Registry.Waits`: what a command must wait for

## Main results

* `Registry.registeredUntil_of_waits`: instances stay registered, in every run that attaches an id
  only once its earlier instances have reported; `Registry.not_registeredUntil_reloaded` is a hot
  reload that does not wait
* `Registry.tool_names_owned`: over every run, names stay with their owners, and every call
  dispatched to a plugin carries the stamps
-/

namespace ApexOS.Agentd

/-! ### Claiming a name -/

/-- `ClaimError`. -/
inductive ClaimError
  | virtual
  | reserved (expected : String)
  | duplicate (owner : PluginId)
  deriving DecidableEq, Repr

namespace ToolClaim

/-- `claim_tool_name`. -/
def claimToolName (name claimant : String) (registry : String → Option PluginId) :
    Except ClaimError Unit :=
  let duplicates : Except ClaimError Unit :=
    match registry name with
    | some owner => if owner ≠ claimant then .error (.duplicate owner) else .ok ()
    | none => .ok ()
  match nameOwner name with
  | some .virtual => .error .virtual
  | some (.plugin expected) =>
    if claimant ≠ expected then .error (.reserved expected) else duplicates
  | some .toolsFamily =>
    if !isToolsFamily claimant then .error (.reserved "apexos-tools|apexos-net|apexos-dev")
    else duplicates
  | none => duplicates

/-- `stamps_agent_id`. -/
def stampsAgentId (plugin tool : String) : Bool :=
  plugin == "cerebro" || nameOwner tool == some (.plugin "cerebro")

/-- `stamps_workspace`. -/
def stampsWorkspace (plugin tool : String) : Bool :=
  isToolsFamily plugin || nameOwner tool == some .toolsFamily

/-- The plugin may have the name: it is nobody's, or its own, or its family's. -/
def MayOwn (plugin name : String) : Prop :=
  match nameOwner name with
  | some .virtual => False
  | some (.plugin expected) => plugin = expected
  | some .toolsFamily => isToolsFamily plugin = true
  | none => True

/-- A name is claimed by one that may own it, and that alone holds it if anyone does. -/
theorem claimToolName_ok {name claimant : String} {registry : String → Option PluginId}
    (h : claimToolName name claimant registry = .ok ()) :
    MayOwn claimant name ∧ ∀ owner, registry name = some owner → owner = claimant := by
  have hdup : (match registry name with
      | some owner => if owner ≠ claimant then Except.error (ClaimError.duplicate owner) else .ok ()
      | none => .ok ()) = .ok () → ∀ owner, registry name = some owner → owner = claimant := by
    intro hok owner howner
    by_contra hne
    simp [howner, hne] at hok
  unfold claimToolName at h
  unfold MayOwn
  cases hown : nameOwner name with
  | none =>
    simp only [hown] at h
    exact ⟨trivial, hdup h⟩
  | some owner =>
    cases owner with
    | virtual => simp [hown] at h
    | plugin expected =>
      simp only [hown] at h
      split at h
      · cases h
      · rename_i heq
        exact ⟨not_not.mp heq, hdup h⟩
    | toolsFamily =>
      simp only [hown] at h
      split at h
      · cases h
      · rename_i heq
        exact ⟨by simpa using heq, hdup h⟩

end ToolClaim

/-! ### The stamps -/

/-- `SPAWN_SESSION_BASE`. -/
def spawnSessionBase : SessionId := 2 ^ 63

/-- `is_spawn_session`. -/
def isSpawnSession (session : SessionId) : Bool := spawnSessionBase ≤ session

/-- Where a session's agent comes from, and where agents work. -/
structure Identity where
  /-- `session_bindings`. -/
  bindings : SessionId → Option String
  /-- `node_agent_id`. -/
  nodeAgentId : String
  /-- `workspace_base`. -/
  workspaceBase : String

namespace Identity

/-- `resolve_agent_id`. -/
def resolveAgentId (ids : Identity) (session : SessionId) : String :=
  (ids.bindings session).getD ids.nodeAgentId

/-- `PathBuf::join`, for a part that is relative. -/
def join (base part : String) : String :=
  if base = "" ∨ "/".toList.isSuffixOf base.toList then base ++ part else base ++ "/" ++ part

/-- Every character is a letter, a digit, `_` or `-`. -/
def pathSafe (agent : String) : Bool :=
  agent != "" && agent.toList.all fun c =>
    ('a' ≤ c && c ≤ 'z') || ('A' ≤ c && c ≤ 'Z') || ('0' ≤ c && c ≤ '9') || c == '_' || c == '-'

/-- `agent_workspace_root`. -/
def agentWorkspaceRoot (ids : Identity) (agent : String) : String :=
  if agent = ids.nodeAgentId ∨ !pathSafe agent then ids.workspaceBase
  else join (join ids.workspaceBase "workspaces") agent

end Identity

/-- Arguments that are not an object become an empty one. -/
def toObject (args : Json) : Json := if args.isObject then args else .object []

/-- `CALLER_IDENTITY_ALIASES`. -/
def callerIdentityAliases : List String := ["set_agent_id", "from_agent_id"]

/-- The loop of `stamp_agent_id`: an alias that is there is overwritten. -/
def stampAliases (agent : String) (args : Json) (aliases : List String) : Json :=
  aliases.foldl (fun args key =>
    if (args.get? key).isSome then args.insert key (.string agent) else args) args

/-- `stamp_agent_id`. -/
def stampAgentId (args : Json) (agent : String) : Json :=
  stampAliases agent ((toObject args).insert "agent_id" (.string agent)) callerIdentityAliases

/-- `stamp_workspace`. -/
def stampWorkspace (args : Json) (workspace : String) : Json :=
  (toObject args).insert "__workspace" (.string workspace)

/-- `MINT_TOOLS`. -/
def mintTools : List String :=
  ["remember", "memory_store", "store_procedure", "store_intention", "create_schema"]

/-- The tags with the provenance among them: a bare string becomes a list, anything else that is
not a list an empty one. -/
def spawnTags (tags : Option Json) : Json :=
  let items := match tags with
    | some (.array items) => items
    | some (.string s) => [.string s]
    | _ => []
  if items.any fun t => t.asStr == some "spawn-derived" then .array items
  else .array (items ++ [.string "spawn-derived"])

/-- `stamp_spawn_provenance`. -/
def stampSpawnProvenance (args : Json) (tool : String) : Json :=
  if tool ∈ mintTools then
    (toObject args).insert "tags" (spawnTags ((toObject args).get? "tags"))
  else args

@[simp] theorem isObject_toObject (args : Json) : (toObject args).isObject = true := by
  rw [toObject]
  split
  · assumption
  · rfl

@[simp] theorem get?_toObject (args : Json) (key : String) :
    (toObject args).get? key = args.get? key := by
  rw [toObject]
  split
  · rfl
  · cases args with
    | object fields => simp [Json.isObject] at *
    | _ => rfl

/-- Every alias that is there reads the agent, every other key reads as before. -/
theorem get?_stampAliases (agent : String) (args : Json) (aliases : List String) (key : String) :
    (stampAliases agent args aliases).get? key =
      if key ∈ aliases then (args.get? key).map fun _ => .string agent else args.get? key := by
  induction aliases generalizing args with
  | nil => rfl
  | cons other aliases ih =>
    rw [stampAliases, List.foldl_cons, ← stampAliases, ih]
    have hstep : (if (args.get? other).isSome then args.insert other (.string agent)
        else args).get? key
        = if key = other then (args.get? key).map fun _ => .string agent else args.get? key := by
      by_cases heq : key = other
      · subst heq
        cases hget : args.get? key with
        | none => simp [hget]
        | some value => simp [Json.get?_insert_self (Json.isObject_of_get? hget)]
      · rw [if_neg heq]
        split
        · exact Json.get?_insert_of_ne heq _ _
        · rfl
    rw [hstep]
    by_cases hmem : key ∈ aliases
    · rw [if_pos hmem, if_pos (List.mem_cons_of_mem _ hmem)]
      split
      · rw [Option.map_map]
        rfl
      · rfl
    · rw [if_neg hmem]
      simp only [List.mem_cons, hmem, or_false]

theorem get?_stampAgentId (args : Json) (agent key : String) :
    (stampAgentId args agent).get? key =
      if key = "agent_id" then some (.string agent)
      else if key ∈ callerIdentityAliases then (args.get? key).map fun _ => .string agent
      else args.get? key := by
  rw [stampAgentId, get?_stampAliases]
  by_cases hkey : key = "agent_id"
  · subst hkey
    rw [if_pos rfl, if_neg (by decide)]
    exact Json.get?_insert_self (isObject_toObject args)
  · rw [if_neg hkey, Json.get?_insert_of_ne hkey, get?_toObject]

/-- The provenance touches the tags alone. -/
theorem get?_stampSpawnProvenance (args : Json) (tool : String) {key : String} (h : key ≠ "tags") :
    (stampSpawnProvenance args tool).get? key = args.get? key := by
  rw [stampSpawnProvenance]
  split
  · rw [Json.get?_insert_of_ne h, get?_toObject]
  · rfl

theorem get?_stampWorkspace (args : Json) (workspace : String) :
    (stampWorkspace args workspace).get? "__workspace" = some (.string workspace) :=
  Json.get?_insert_self (isObject_toObject args)

/-! ### The registry -/

/-- `RestartPolicy`. -/
inductive RestartPolicy
  | always
  | onFailure
  | never
  deriving DecidableEq, Repr

/-- `PluginConfig`, without what only the attachment reads. -/
structure PluginConfig where
  id : PluginId
  restart : RestartPolicy
  deriving DecidableEq, Repr

/-- `should_restart`. -/
def shouldRestart (policy : RestartPolicy) (exitedSuccess : Bool) : Bool :=
  match policy with
  | .always => true
  | .onFailure => !exitedSuccess
  | .never => false

/-- How `attach_stdio_plugin` or `attach_unix_plugin`, `initialize` and `list_tools` turn out. -/
inductive Attach
  /-- There is no process and no connection, and nobody watches. -/
  | refused
  /-- `connect_unix_retry` gave up: a `PluginDied` is sent a second later. -/
  | unreachable
  /-- An instance is attached and watched; `none` if it did not answer. -/
  | attached (tools : Option (List ToolSpec))

/-- A watcher that has not reported: of an instance, or of a failed connection. -/
structure Watcher where
  plugin : PluginId
  instance? : Option ℕ
  deriving DecidableEq, Repr

/-- `SupervisorCmd`, with how the attachments it makes turn out. -/
inductive SupervisorCmd
  | pluginDied (watcher : Watcher) (success : Bool) (attach : Attach)
  | spawnPlugin (config : PluginConfig) (attach : Attach)
  | killPlugin (id : PluginId)
  | hotReload (id : PluginId) (attach : Attach)

/-- The supervisor's plugins. -/
structure Registry where
  configs : PluginId → Option PluginConfig
  /-- The instance whose client is held. -/
  plugins : PluginId → Option ℕ
  toolRegistry : String → Option PluginId
  /-- How many instances were ever attached. -/
  attached : ℕ
  /-- The watchers whose `PluginDied` was not handled yet. -/
  watchers : List Watcher

namespace Registry

/-- Before any plugin. -/
def empty : Registry := ⟨fun _ => none, fun _ => none, fun _ => none, 0, []⟩

/-- The loop of `spawn_plugin` over the tools an instance lists. -/
def claimTools (registry : String → Option PluginId) (plugin : PluginId) :
    List ToolSpec → (String → Option PluginId) × List ToolSpec
  | [] => (registry, [])
  | spec :: specs =>
    match ToolClaim.claimToolName spec.name plugin registry with
    | .ok () =>
      let (registry, accepted) :=
        claimTools (Function.update registry spec.name (some plugin)) plugin specs
      (registry, spec :: accepted)
    | .error _ => claimTools registry plugin specs

/-- `spawn_plugin`. -/
def spawnPlugin (r : Registry) (cfg : PluginConfig) (attach : Attach) :
    Registry × List PluginEvent :=
  let r := { r with configs := Function.update r.configs cfg.id (some cfg) }
  match attach with
  | .refused => (r, [])
  | .unreachable => ({ r with watchers := r.watchers ++ [⟨cfg.id, none⟩] }, [])
  | .attached none =>
    ({ r with attached := r.attached + 1, watchers := r.watchers ++ [⟨cfg.id, some r.attached⟩] },
      [])
  | .attached (some tools) =>
    let (registry, accepted) := claimTools r.toolRegistry cfg.id tools
    ({ r with
        toolRegistry := registry
        plugins := Function.update r.plugins cfg.id (some r.attached)
        attached := r.attached + 1
        watchers := r.watchers ++ [⟨cfg.id, some r.attached⟩] },
      [.up cfg.id accepted])

/-- The plugin and its tools are taken out, and its client dropped. -/
def unregister (r : Registry) (id : PluginId) : Registry × List PluginEvent :=
  ({ r with
      toolRegistry := fun name => (r.toolRegistry name).filter (· ≠ id)
      plugins := Function.update r.plugins id none },
    if (r.plugins id).isSome then [.down id] else [])

/-- `handle_died`: whichever instance reported, the id is taken out. -/
def handleDied (r : Registry) (id : PluginId) (success : Bool) (attach : Attach) :
    Registry × List PluginEvent :=
  let (r, down) := r.unregister id
  match r.configs id with
  | none => (r, down)
  | some cfg =>
    if shouldRestart cfg.restart success then
      let (r, up) := r.spawnPlugin cfg attach
      (r, down ++ up)
    else (r, down)

/-- The `HotReload` arm. -/
def hotReload (r : Registry) (id : PluginId) (attach : Attach) : Registry × List PluginEvent :=
  let (r, down) := r.unregister id
  match r.configs id with
  | none => (r, down)
  | some cfg =>
    if cfg.restart ≠ .always then
      let (r, up) := r.spawnPlugin cfg attach
      (r, down ++ up)
    else (r, down)

/-- The commands. A watcher reports once, and only one there is. -/
def step (r : Registry) : SupervisorCmd → Registry × List PluginEvent
  | .pluginDied watcher success attach =>
    if watcher ∈ r.watchers then
      handleDied { r with watchers := r.watchers.erase watcher } watcher.plugin success attach
    else (r, [])
  | .spawnPlugin config attach => r.spawnPlugin config attach
  | .killPlugin id => { r with configs := Function.update r.configs id none }.unregister id
  | .hotReload id attach => r.hotReload id attach

/-- The plugin path of `dispatch_tool`: who gets the call, and the call as it gets it. -/
def dispatchPlugin (r : Registry) (ids : Identity) (session : SessionId) (call : ToolCall) :
    Option (PluginId × ℕ × ToolCall) :=
  (r.toolRegistry call.tool).bind fun pid => (r.plugins pid).map fun client =>
    let agent := ids.resolveAgentId session
    let args :=
      if ToolClaim.stampsAgentId pid call.tool then
        let args := stampAgentId call.args agent
        if isSpawnSession session then stampSpawnProvenance args call.tool else args
      else if ToolClaim.stampsWorkspace pid call.tool then
        stampWorkspace call.args (ids.agentWorkspaceRoot agent)
      else call.args
    (pid, client, { call with args })

/-! ### What each part of a command does -/

variable {r : Registry} {id p : PluginId} {name : String} {cfg : PluginConfig} {attach : Attach}

/-- Claiming names takes none away, and gives only what the plugin may own and nobody holds. -/
theorem claimTools_spec (registry : String → Option PluginId) (plugin : PluginId)
    (specs : List ToolSpec) (name : String) :
    (claimTools registry plugin specs).1 name = registry name ∨
      (claimTools registry plugin specs).1 name = some plugin ∧ registry name = none ∧
        ToolClaim.MayOwn plugin name := by
  induction specs generalizing registry with
  | nil => exact Or.inl rfl
  | cons spec specs ih =>
    rw [claimTools]
    split
    · rename_i hok
      obtain ⟨hmay, hown⟩ := ToolClaim.claimToolName_ok hok
      by_cases hname : name = spec.name
      · subst hname
        have hself : (claimTools (Function.update registry spec.name (some plugin)) plugin
            specs).1 spec.name = some plugin := by
          rcases ih (Function.update registry spec.name (some plugin)) with h | ⟨h, -⟩
          · rw [h, Function.update_self]
          · exact h
        cases hreg : registry spec.name with
        | none => exact Or.inr ⟨hself, rfl, hmay⟩
        | some owner =>
          rw [hown owner hreg]
          exact Or.inl hself
      · have h := ih (Function.update registry spec.name (some plugin))
        rwa [Function.update_of_ne hname] at h
    · exact ih registry

/-- What `spawn_plugin` does to the names. -/
theorem toolRegistry_spawnPlugin (r : Registry) (cfg : PluginConfig) (attach : Attach)
    (name : String) :
    (r.spawnPlugin cfg attach).1.toolRegistry name = r.toolRegistry name ∨
      (r.spawnPlugin cfg attach).1.toolRegistry name = some cfg.id ∧ r.toolRegistry name = none ∧
        ToolClaim.MayOwn cfg.id name ∧ (r.spawnPlugin cfg attach).1.plugins cfg.id ≠ none := by
  unfold spawnPlugin
  split
  · exact Or.inl rfl
  · exact Or.inl rfl
  · exact Or.inl rfl
  · rename_i tools
    rcases claimTools_spec r.toolRegistry cfg.id tools name with h | ⟨h, hnone, hmay⟩
    · exact Or.inl h
    · exact Or.inr ⟨h, hnone, hmay, by simp⟩

theorem toolRegistry_spawnPlugin_of_some (h : r.toolRegistry name = some p) :
    (r.spawnPlugin cfg attach).1.toolRegistry name = some p := by
  rcases toolRegistry_spawnPlugin r cfg attach name with heq | ⟨-, hnone, -⟩
  · rw [heq, h]
  · rw [h] at hnone
    cases hnone

/-- What `spawn_plugin` does to the instances: at most the id's own is replaced. -/
theorem plugins_spawnPlugin (r : Registry) (cfg : PluginConfig) (attach : Attach) (p : PluginId) :
    (r.spawnPlugin cfg attach).1.plugins p = r.plugins p ∨
      p = cfg.id ∧ (r.spawnPlugin cfg attach).1.plugins p = some r.attached ∧
        ∃ tools, attach = .attached (some tools) := by
  unfold spawnPlugin
  split
  · exact Or.inl rfl
  · exact Or.inl rfl
  · exact Or.inl rfl
  · rename_i tools
    by_cases hp : p = cfg.id
    · subst hp
      exact Or.inr ⟨rfl, Function.update_self .., tools, rfl⟩
    · exact Or.inl (Function.update_of_ne hp _ _)

theorem configs_spawnPlugin (r : Registry) (cfg : PluginConfig) (attach : Attach) :
    (r.spawnPlugin cfg attach).1.configs = Function.update r.configs cfg.id (some cfg) := by
  unfold spawnPlugin
  split <;> rfl

/-- What `spawn_plugin` does to the watchers: one more, unless nothing was attached. -/
theorem watchers_spawnPlugin (r : Registry) (cfg : PluginConfig) (attach : Attach) :
    attach = .refused ∧ (r.spawnPlugin cfg attach).1.watchers = r.watchers ∨
      ∃ instance?, (r.spawnPlugin cfg attach).1.watchers = r.watchers ++ [⟨cfg.id, instance?⟩] ∧
        ∀ tools, attach = .attached (some tools) → instance? = some r.attached := by
  unfold spawnPlugin
  split
  · exact Or.inl ⟨rfl, rfl⟩
  · exact Or.inr ⟨none, rfl, fun _ h => by cases h⟩
  · exact Or.inr ⟨some r.attached, rfl, fun _ _ => rfl⟩
  · exact Or.inr ⟨some r.attached, rfl, fun _ _ => rfl⟩

theorem toolRegistry_unregister : (r.unregister id).1.toolRegistry name = some p ↔
    r.toolRegistry name = some p ∧ p ≠ id := by
  simp [unregister, Option.filter_eq_some_iff]

theorem plugins_unregister_of_ne (h : p ≠ id) :
    (r.unregister id).1.plugins p = r.plugins p :=
  Function.update_of_ne h _ _

@[simp] theorem plugins_unregister_self : (r.unregister id).1.plugins id = none :=
  Function.update_self ..

/-- Every plugin's configuration stands under its own id. -/
def Keyed (r : Registry) : Prop := ∀ id cfg, r.configs id = some cfg → cfg.id = id

/-- Handling a death takes the id out and at most starts it anew. -/
theorem handleDied_cases (r : Registry) (id : PluginId) (success : Bool) (attach : Attach) :
    (r.handleDied id success attach).1 = (r.unregister id).1 ∨
      ∃ cfg, r.configs id = some cfg ∧
        (r.handleDied id success attach).1 = ((r.unregister id).1.spawnPlugin cfg attach).1 := by
  cases hcfg : r.configs id with
  | none => exact Or.inl (by simp [handleDied, unregister, hcfg])
  | some cfg =>
    by_cases hrestart : shouldRestart cfg.restart success
    · exact Or.inr ⟨cfg, rfl, by simp [handleDied, unregister, hcfg, hrestart]⟩
    · exact Or.inl (by simp [handleDied, unregister, hcfg, hrestart])

/-- So does a hot reload, which starts anew what does not restart by itself. -/
theorem hotReload_cases (r : Registry) (id : PluginId) (attach : Attach) :
    (r.hotReload id attach).1 = (r.unregister id).1 ∨
      ∃ cfg, r.configs id = some cfg ∧ cfg.restart ≠ .always ∧
        (r.hotReload id attach).1 = ((r.unregister id).1.spawnPlugin cfg attach).1 := by
  cases hcfg : r.configs id with
  | none => exact Or.inl (by simp [hotReload, unregister, hcfg])
  | some cfg =>
    by_cases hrestart : cfg.restart = .always
    · exact Or.inl (by simp [hotReload, unregister, hcfg, hrestart])
    · exact Or.inr ⟨cfg, rfl, hrestart, by simp [hotReload, unregister, hcfg, hrestart]⟩

/-- **What a command can do** to a registry: nothing, start a plugin, take one out, or take one out
and start it anew; the watchers before it, but for the one that reported. -/
inductive Does (r : Registry) : SupervisorCmd → Registry → Prop
  | nothing {w : Watcher} {success : Bool} {attach : Attach} (h : w ∉ r.watchers) :
      Does r (.pluginDied w success attach) r
  | spawns (cfg : PluginConfig) (attach : Attach) :
      Does r (.spawnPlugin cfg attach) (r.spawnPlugin cfg attach).1
  | kills (id : PluginId) :
      Does r (.killPlugin id)
        ({ r with configs := Function.update r.configs id none }.unregister id).1
  | dies {w : Watcher} {success : Bool} {attach : Attach} (h : w ∈ r.watchers) :
      Does r (.pluginDied w success attach)
        ({ r with watchers := r.watchers.erase w }.unregister w.plugin).1
  | restarts {w : Watcher} {success : Bool} {attach : Attach} {cfg : PluginConfig}
      (h : w ∈ r.watchers) (hcfg : r.configs w.plugin = some cfg) :
      Does r (.pluginDied w success attach)
        (({ r with watchers := r.watchers.erase w }.unregister w.plugin).1.spawnPlugin cfg attach).1
  | drops (id : PluginId) (attach : Attach) : Does r (.hotReload id attach) (r.unregister id).1
  | reloads {id : PluginId} {attach : Attach} {cfg : PluginConfig}
      (hcfg : r.configs id = some cfg) (hpolicy : cfg.restart ≠ .always) :
      Does r (.hotReload id attach) ((r.unregister id).1.spawnPlugin cfg attach).1

theorem does_step (r : Registry) (e : SupervisorCmd) : Does r e (r.step e).1 := by
  cases e with
  | pluginDied w success attach =>
    rw [step]
    split
    · rename_i hw
      rcases handleDied_cases { r with watchers := r.watchers.erase w } w.plugin success attach with
        h | ⟨cfg, hcfg, h⟩
      · rw [h]
        exact .dies hw
      · rw [h]
        exact .restarts hw hcfg
    · rename_i hw
      exact .nothing hw
  | spawnPlugin cfg attach => exact .spawns cfg attach
  | killPlugin id => exact .kills id
  | hotReload id attach =>
    rw [step]
    rcases hotReload_cases r id attach with h | ⟨cfg, hcfg, hpolicy, h⟩
    · rw [h]
      exact .drops id attach
    · rw [h]
      exact .reloads hcfg hpolicy

theorem Keyed.spawnPlugin (h : r.Keyed) : (r.spawnPlugin cfg attach).1.Keyed := by
  intro id cfg' hcfg'
  rw [configs_spawnPlugin] at hcfg'
  by_cases hid : id = cfg.id
  · rw [hid, Function.update_self] at hcfg'
    rw [hid, Option.some.inj hcfg']
  · rw [Function.update_of_ne hid] at hcfg'
    exact h id cfg' hcfg'

theorem Keyed.step (h : r.Keyed) (e : SupervisorCmd) : (r.step e).1.Keyed := by
  have hdoes := does_step r e
  generalize (r.step e).1 = r' at hdoes
  cases hdoes with
  | nothing => exact h
  | spawns cfg attach => exact h.spawnPlugin
  | kills id =>
    intro id' cfg' hcfg'
    by_cases hid : id' = id
    · simp [Registry.unregister, hid] at hcfg'
    · exact h id' cfg' (by simpa [Registry.unregister, hid] using hcfg')
  | dies => exact h
  | restarts => exact Keyed.spawnPlugin h
  | drops => exact h
  | reloads => exact Keyed.spawnPlugin h

/-! ### Instances stay registered -/

/-- The command is for this id. -/
def Commands (id : PluginId) : SupervisorCmd → Prop
  | .pluginDied .. => False
  | .spawnPlugin cfg _ => cfg.id = id
  | .killPlugin other => other = id
  | .hotReload other _ => other = id

/-- The command may take the instance out: it is for its id, or the instance has exited. -/
def Releases (id : PluginId) (m : ℕ) (e : SupervisorCmd) : Prop :=
  Commands id e ∨ ∃ success attach, e = .pluginDied ⟨id, some m⟩ success attach

/-- The instance and the names of its plugin are still there. -/
def Retains (r r' : Registry) (id : PluginId) (m : ℕ) : Prop :=
  r'.plugins id = some m ∧
    ∀ name, r.toolRegistry name = some id → r'.toolRegistry name = some id

/-- **An instance stays registered**, with its tools, until a command for its id or its own exit:
no `PluginDied` of an earlier instance takes it out. -/
def RegisteredUntil (cmds : List SupervisorCmd) : Prop :=
  ∀ before after, cmds = before ++ after → ∀ id m,
    (Run.final step empty before).plugins id = some m → (∀ e ∈ after, ¬ Releases id m e) →
    Retains (Run.final step empty before) (Run.final step empty cmds) id m

/-- What a command waits for: it attaches an id only if no watcher of that id is left. -/
def Waits (r : Registry) : SupervisorCmd → Prop
  | .spawnPlugin cfg attach => attach = .refused ∨ ∀ w ∈ r.watchers, w.plugin ≠ cfg.id
  | .hotReload id attach => attach = .refused ∨
      (∀ cfg, r.configs id = some cfg → cfg.restart = .always) ∨ ∀ w ∈ r.watchers, w.plugin ≠ id
  | _ => True

/-- Every id has one watcher at most, and every registered instance has one. -/
structure Watched (r : Registry) : Prop where
  keyed : r.Keyed
  nodup : (r.watchers.map Watcher.plugin).Nodup
  watched : ∀ id m, r.plugins id = some m → ⟨id, some m⟩ ∈ r.watchers

theorem Watched.unregister (h : r.Watched) (id : PluginId) : (r.unregister id).1.Watched := by
  refine ⟨h.keyed, h.nodup, fun p m hp => ?_⟩
  by_cases hid : p = id
  · rw [hid, plugins_unregister_self] at hp
    cases hp
  · exact h.watched p m (by rwa [plugins_unregister_of_ne hid] at hp)

/-- A plugin is started where no watcher of its id is left. -/
theorem Watched.spawnPlugin (h : r.Watched)
    (hfree : attach = .refused ∨ ∀ w ∈ r.watchers, w.plugin ≠ cfg.id) :
    (r.spawnPlugin cfg attach).1.Watched := by
  refine ⟨h.keyed.spawnPlugin, ?_, fun p m hp => ?_⟩
  · rcases watchers_spawnPlugin r cfg attach with ⟨-, hw⟩ | ⟨instance?, hw, -⟩
    · rw [hw]
      exact h.nodup
    · rcases hfree with rfl | hfree
      · exact h.nodup
      · rw [hw, List.map_append, List.map_singleton, ← List.concat_eq_append, List.nodup_concat]
        refine ⟨fun hmem => ?_, h.nodup⟩
        obtain ⟨w, hwmem, hwid⟩ := List.mem_map.mp hmem
        exact hfree w hwmem hwid
  · rcases plugins_spawnPlugin r cfg attach p with heq | ⟨rfl, heq, tools, rfl⟩
    · have hmem := h.watched p m (by rw [← heq, hp])
      rcases watchers_spawnPlugin r cfg attach with ⟨-, hw⟩ | ⟨_, hw, -⟩
      · rwa [hw]
      · rw [hw]
        exact List.mem_append_left _ hmem
    · rcases watchers_spawnPlugin r cfg (.attached (some tools)) with ⟨hc, -⟩ | ⟨_, hw, hinst⟩
      · cases hc
      · rw [hp] at heq
        rw [hw, hinst tools rfl, heq]
        exact List.mem_append_right _ (List.mem_singleton.mpr rfl)

/-- The watchers of an id are one. -/
theorem Watched.eq_of_plugin (h : r.Watched) {w w' : Watcher} (hw : w ∈ r.watchers)
    (hw' : w' ∈ r.watchers) (heq : w.plugin = w'.plugin) : w = w' :=
  List.inj_on_of_nodup_map h.nodup hw hw' heq

/-- After a death the id is free. -/
theorem Watched.dies (h : r.Watched) {w : Watcher} (hw : w ∈ r.watchers) :
    ({ r with watchers := r.watchers.erase w }.unregister w.plugin).1.Watched ∧
      ∀ w' ∈ r.watchers.erase w, w'.plugin ≠ w.plugin := by
  have hnodup : r.watchers.Nodup := List.Nodup.of_map _ h.nodup
  have herase : ∀ w', w' ∈ r.watchers.erase w ↔ w' ≠ w ∧ w' ∈ r.watchers :=
    fun w' => hnodup.mem_erase_iff
  refine ⟨⟨h.keyed, h.nodup.sublist (List.erase_sublist.map _), fun p m hp => ?_⟩, fun w' hw' => ?_⟩
  · by_cases hid : p = w.plugin
    · rw [hid, plugins_unregister_self] at hp
      cases hp
    · rw [plugins_unregister_of_ne hid] at hp
      refine (herase _).mpr ⟨?_, h.watched p m hp⟩
      rintro rfl
      exact hid rfl
  · obtain ⟨hne, hmem⟩ := (herase w').mp hw'
    exact fun heq => hne (h.eq_of_plugin hmem hw heq)

theorem Watched.step (h : r.Watched) {e : SupervisorCmd} (hwait : r.Waits e) :
    (r.step e).1.Watched := by
  have hkeyed := h.keyed.step e
  have hdoes := does_step r e
  generalize (r.step e).1 = r' at hdoes hkeyed
  cases hdoes with
  | nothing => exact h
  | spawns cfg attach => exact h.spawnPlugin hwait
  | kills id =>
    have hun := h.unregister id
    exact ⟨hkeyed, hun.nodup, hun.watched⟩
  | dies hw => exact (h.dies hw).1
  | restarts hw hcfg =>
    obtain ⟨hdies, hfree⟩ := h.dies hw
    exact hdies.spawnPlugin (Or.inr (by rw [h.keyed _ _ hcfg]; exact hfree))
  | drops id attach => exact h.unregister id
  | reloads hcfg hpolicy =>
    refine (h.unregister _).spawnPlugin ?_
    rw [h.keyed _ _ hcfg]
    rcases hwait with hrefused | halways | hfree
    · exact Or.inl hrefused
    · exact absurd (halways _ hcfg) hpolicy
    · exact Or.inr hfree

theorem Retains.trans {r r' r'' : Registry} {m : ℕ} (h : Retains r r' id m)
    (h' : Retains r' r'' id m) : Retains r r'' id m :=
  ⟨h'.1, fun name hname => h'.2 name (h.2 name hname)⟩

theorem retains_spawnPlugin {m : ℕ} (hp : r.plugins id = some m) (hne : cfg.id ≠ id) :
    Retains r (r.spawnPlugin cfg attach).1 id m := by
  refine ⟨?_, fun name hname => toolRegistry_spawnPlugin_of_some hname⟩
  rcases plugins_spawnPlugin r cfg attach id with heq | ⟨heq, -⟩
  · rw [heq, hp]
  · exact absurd heq.symm hne

theorem retains_unregister {m : ℕ} {other : PluginId} (hp : r.plugins id = some m)
    (hne : other ≠ id) : Retains r (r.unregister other).1 id m :=
  ⟨by rw [plugins_unregister_of_ne hne.symm, hp],
    fun _ hname => toolRegistry_unregister.mpr ⟨hname, hne.symm⟩⟩

/-- Where instances are watched, only a command for the id or the instance's own exit takes it
out. -/
theorem Watched.retains (h : r.Watched) {m : ℕ} {e : SupervisorCmd} (hp : r.plugins id = some m)
    (hrel : ¬ Releases id m e) : Retains r (r.step e).1 id m := by
  rw [Releases, not_or] at hrel
  obtain ⟨hcmd, hdied⟩ := hrel
  -- A watcher that reports is another id's: the id's own one watches the registered instance.
  have hother : ∀ w success attach, e = .pluginDied w success attach → w ∈ r.watchers →
      w.plugin ≠ id := by
    rintro w success attach rfl hw rfl
    have hw' := h.eq_of_plugin hw (h.watched _ m hp) rfl
    exact hdied ⟨success, attach, by rw [← hw']⟩
  have hdoes := does_step r e
  generalize (r.step e).1 = r' at hdoes
  cases hdoes with
  | nothing => exact ⟨hp, fun _ hname => hname⟩
  | spawns cfg attach => exact retains_spawnPlugin hp hcmd
  | kills other => exact retains_unregister (r := { r with configs := _ }) hp hcmd
  | dies hw => exact retains_unregister (r := { r with watchers := _ }) hp (hother _ _ _ rfl hw)
  | @restarts w success attach cfg hw hcfg =>
    have hne := hother _ _ _ rfl hw
    have hun := retains_unregister (r := { r with watchers := r.watchers.erase w }) hp hne
    exact hun.trans (retains_spawnPlugin hun.1 (by rwa [h.keyed _ _ hcfg]))
  | drops other attach => exact retains_unregister hp hcmd
  | reloads hcfg hpolicy =>
    have hun := retains_unregister hp hcmd
    exact hun.trans (retains_spawnPlugin hun.1 (by rwa [h.keyed _ _ hcfg]))

theorem watched_empty : empty.Watched :=
  ⟨fun _ _ h => (by cases h), List.nodup_nil, fun _ _ h => (by cases h)⟩

/-- **Instances stay registered.** In every run, whatever the order of the commands and however
the attachments turn out: if no id is attached while a watcher of it has still to report, an
instance stays registered until a command for its id or its own exit. -/
theorem registeredUntil_of_waits {cmds : List SupervisorCmd}
    (h : Run.Always step empty (fun _ r e => r.Waits e) cmds) : RegisteredUntil cmds := by
  rintro before after rfl id m hp hrel
  induction after using List.reverseRecOn with
  | nil =>
    rw [List.append_nil]
    exact ⟨hp, fun _ hname => hname⟩
  | append_singleton after e ih =>
    rw [← List.append_assoc] at h ⊢
    have hprev := ih h.of_append fun e he => hrel e (List.mem_append_left _ he)
    have hwatched : (Run.final step empty (before ++ after)).Watched :=
      Run.invariant (I := fun _ => Watched) watched_empty
        (fun _ _ _ hr hw => hr.step hw) h.of_append
    rw [Run.final_append, Run.final_cons, Run.final_nil]
    exact hprev.trans (hwatched.retains hprev.1 (hrel e (by simp)))

/-- A plugin that does not restart by itself is started, hot reloaded, and its first instance
reports its exit. -/
def reloaded : List SupervisorCmd :=
  [.spawnPlugin ⟨"search", .never⟩ (.attached (some [⟨"find"⟩])),
    .hotReload "search" (.attached (some [⟨"find"⟩])),
    .pluginDied ⟨"search", some 0⟩ true .refused]

/-- The exit of the first instance takes the second one out. -/
theorem not_registeredUntil_reloaded : ¬ RegisteredUntil reloaded := by
  intro h
  have hlive : (Run.final step empty (reloaded.take 2)).plugins "search" = some 1 := rfl
  have hgone : (Run.final step empty reloaded).plugins "search" = none := rfl
  have hretains := h (reloaded.take 2) (reloaded.drop 2) rfl "search" 1 hlive (fun e he => ?_)
  · rw [hretains.1] at hgone
    cases hgone
  · obtain rfl : e = .pluginDied ⟨"search", some 0⟩ true .refused := by simpa [reloaded] using he
    rintro (hc | ⟨_, _, hc⟩)
    · exact hc
    · simp at hc

/-- A plugin that restarts by itself is hot reloaded the same way, and stays. -/
def restarted : List SupervisorCmd :=
  [.spawnPlugin ⟨"search", .always⟩ (.attached (some [⟨"find"⟩])), .hotReload "search" .refused,
    .pluginDied ⟨"search", some 0⟩ true (.attached (some [⟨"find"⟩]))]

theorem registeredUntil_restarted :
    Run.Always step empty (fun _ r e => r.Waits e) restarted ∧ RegisteredUntil restarted := by
  have hwaits : Run.Always step empty (fun _ r e => r.Waits e) restarted := by
    simp only [restarted, Run.always_cons]
    refine ⟨Or.inr fun w hw => ?_, Or.inl rfl, trivial, Run.Always.nil⟩
    cases hw
  exact ⟨hwaits, registeredUntil_of_waits hwaits⟩

/-! ### Names stay with their owners -/

/-- Every name is held by a live plugin that may own it. -/
structure Owned (r : Registry) : Prop where
  keyed : r.Keyed
  owned : ∀ name p, r.toolRegistry name = some p → ToolClaim.MayOwn p name ∧ r.plugins p ≠ none

theorem Owned.unregister (h : r.Owned) (id : PluginId) : (r.unregister id).1.Owned := by
  refine ⟨h.keyed, fun name p hname => ?_⟩
  obtain ⟨hname, hne⟩ := toolRegistry_unregister.mp hname
  rw [plugins_unregister_of_ne hne]
  exact h.owned name p hname

theorem Owned.spawnPlugin (h : r.Owned) : (r.spawnPlugin cfg attach).1.Owned := by
  refine ⟨h.keyed.spawnPlugin, fun name p hname => ?_⟩
  rcases toolRegistry_spawnPlugin r cfg attach name with heq | ⟨heq, -, hmay, hlive⟩
  · obtain ⟨hmay, hlive⟩ := h.owned name p (by rw [← heq, hname])
    refine ⟨hmay, ?_⟩
    rcases plugins_spawnPlugin r cfg attach p with heq | ⟨-, heq, -⟩
    · rwa [heq]
    · rw [heq]
      exact Option.some_ne_none _
  · obtain rfl : cfg.id = p := Option.some.inj (heq.symm.trans hname)
    exact ⟨hmay, hlive⟩

theorem Owned.step (h : r.Owned) (e : SupervisorCmd) : (r.step e).1.Owned := by
  have hkeyed := h.keyed.step e
  have hdoes := does_step r e
  generalize (r.step e).1 = r' at hdoes hkeyed
  cases hdoes with
  | nothing => exact h
  | spawns => exact h.spawnPlugin
  | kills id => exact ⟨hkeyed, (h.unregister id).owned⟩
  | dies => exact ⟨h.keyed, (h.unregister _).owned⟩
  | restarts => exact Owned.spawnPlugin ⟨h.keyed, (h.unregister _).owned⟩
  | drops id => exact h.unregister id
  | reloads => exact (h.unregister _).spawnPlugin

theorem owned_empty : empty.Owned := ⟨fun _ _ h => (by cases h), fun _ _ h => (by cases h)⟩

/-- Taken out and started anew, a plugin can only get its own names back. -/
theorem toolRegistry_respawn (hid : cfg.id = id) {q : PluginId}
    (hname : r.toolRegistry name = some p)
    (hq : ((r.unregister id).1.spawnPlugin cfg attach).1.toolRegistry name = some q) : q = p := by
  rcases toolRegistry_spawnPlugin (r.unregister id).1 cfg attach name with heq | ⟨heq, hnone, -⟩
  · have hun := toolRegistry_unregister.mp (heq.symm.trans hq)
    exact Option.some.inj (hun.1.symm.trans hname)
  · obtain rfl : cfg.id = q := Option.some.inj (heq.symm.trans hq)
    by_contra hne
    have hkept := toolRegistry_unregister.mpr ⟨hname, fun hc => hne (hid.trans hc.symm)⟩
    rw [hkept] at hnone
    cases hnone

/-- A name that is held goes to no other plugin. -/
theorem Owned.not_reassigned (h : r.Owned) {e : SupervisorCmd} {q : PluginId}
    (hname : r.toolRegistry name = some p) (hq : (r.step e).1.toolRegistry name = some q) :
    q = p := by
  have hdoes := does_step r e
  generalize (r.step e).1 = r' at hdoes hq
  have hun : ∀ id, (r.unregister id).1.toolRegistry name = some q → q = p := fun id hq =>
    Option.some.inj ((toolRegistry_unregister.mp hq).1.symm.trans hname)
  cases hdoes with
  | nothing => exact Option.some.inj (hq.symm.trans hname)
  | spawns cfg attach =>
    rw [toolRegistry_spawnPlugin_of_some hname] at hq
    exact (Option.some.inj hq).symm
  | kills id => exact hun id hq
  | dies => exact hun _ hq
  | @restarts w success attach cfg hw hcfg =>
    exact toolRegistry_respawn (r := { r with watchers := r.watchers.erase w })
      (h.keyed _ _ hcfg) hname hq
  | drops id => exact hun id hq
  | reloads hcfg => exact toolRegistry_respawn (h.keyed _ _ hcfg) hname hq

/-- **The stamps on a call**: a memory call carries the caller's agent, under `agent_id` and under
every alias the model wrote; otherwise a tools-family call carries the agent's root. -/
def Stamped (ids : Identity) (session : SessionId) (pid : PluginId) (call call' : ToolCall) :
    Prop :=
  if ToolClaim.stampsAgentId pid call.tool then
    call'.args.get? "agent_id" = some (.string (ids.resolveAgentId session)) ∧
      ∀ key ∈ callerIdentityAliases, call'.args.get? key =
        (call.args.get? key).map fun _ => .string (ids.resolveAgentId session)
  else if ToolClaim.stampsWorkspace pid call.tool then
    call'.args.get? "__workspace" =
      some (.string (ids.agentWorkspaceRoot (ids.resolveAgentId session)))
  else call' = call

theorem dispatchPlugin_stamped {ids : Identity} {session : SessionId} {call call' : ToolCall}
    {client : ℕ} (h : r.dispatchPlugin ids session call = some (p, client, call')) :
    r.toolRegistry call.tool = some p ∧ r.plugins p = some client ∧ call'.id = call.id ∧
      call'.tool = call.tool ∧ Stamped ids session p call call' := by
  obtain ⟨pid, hpid, hrest⟩ := Option.bind_eq_some_iff.mp h
  obtain ⟨m, hm, heq⟩ := Option.map_eq_some_iff.mp hrest
  obtain ⟨rfl, rfl, rfl⟩ : pid = p ∧ m = client ∧ _ = call' := by simpa using heq
  refine ⟨hpid, hm, rfl, rfl, ?_⟩
  unfold Stamped
  split
  · have hargs : ∀ key, key ≠ "tags" →
        (if isSpawnSession session then
          stampSpawnProvenance (stampAgentId call.args (ids.resolveAgentId session)) call.tool
        else stampAgentId call.args (ids.resolveAgentId session)).get? key
          = (stampAgentId call.args (ids.resolveAgentId session)).get? key := by
      intro key hkey
      split
      · exact get?_stampSpawnProvenance _ _ hkey
      · rfl
    refine ⟨?_, fun key hkey => ?_⟩
    · rw [hargs _ (by decide), get?_stampAgentId, if_pos rfl]
    · have hne : key ≠ "agent_id" ∧ key ≠ "tags" := by
        revert hkey
        rw [callerIdentityAliases]
        rintro hkey
        rcases List.mem_pair.mp hkey with rfl | rfl <;> decide
      rw [hargs _ hne.2, get?_stampAgentId, if_neg hne.1, if_pos hkey]
  · split
    · exact get?_stampWorkspace _ _
    · rfl

/-- **Tool names stay with their owners.** Over every run of spawns, kills, hot reloads and deaths,
whatever the plugins advertise: after each command every name is held by a live plugin that may own
it, a name that was held has not gone to another plugin, and every call dispatched to a plugin
carries its stamps, whatever arguments the model wrote. -/
theorem tool_names_owned (cmds : List SupervisorCmd) :
    Run.Always step empty (fun _ r e =>
      (∀ name p, (r.step e).1.toolRegistry name = some p →
        ToolClaim.MayOwn p name ∧ (r.step e).1.plugins p ≠ none) ∧
      (∀ name p q, r.toolRegistry name = some p → (r.step e).1.toolRegistry name = some q →
        q = p) ∧
      ∀ ids session call p client call',
        (r.step e).1.dispatchPlugin ids session call = some (p, client, call') →
        (r.step e).1.toolRegistry call.tool = some p ∧ (r.step e).1.plugins p = some client ∧
          call'.id = call.id ∧ call'.tool = call.tool ∧ Stamped ids session p call call') cmds :=
  Run.Always.of_invariant (I := fun _ => Owned) (P := fun _ _ _ => True) owned_empty
    (fun _ _ e h _ => h.step e)
    (fun _ _ e h _ => ⟨(h.step e).owned, fun _ _ _ hname hq => h.not_reassigned hname hq,
      fun _ _ _ _ _ _ hcall => dispatchPlugin_stamped hcall⟩)
    (Run.Always.true cmds)

end Registry

end ApexOS.Agentd
