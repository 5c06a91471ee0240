import ApexOS.Lib.Json
import Mathlib.Data.List.Infix

/-!
# The policy gate

`agentd/crates/plugins/src/policy.rs`, with what it asks of `tool_claim.rs`: whether a tool may run
without a human, and the stamp that turns a model's request for goal-scoped yolo into a grant.

The rules are a list, in the order the map happens to iterate in. Where a path lies is the file
system's business: `inWorkspace` stands for the part of `workspace_decision` that resolves it.

## Main definitions

* `PolicyEngine.checkFor`: the decision for a tool and a path
* `requestsYoloElevation`, `yoloGrantPresent`, `applyYoloGrant`: the request, the grant, the stamp

## Main results

* `get?_applyYoloGrant`: after the stamp the grant key is there exactly when the call was approved
  and asks for it, whatever the model wrote
-/

namespace ApexOS.Agentd

/-! ### Who owns a tool name -/

/-- `NameOwner`. -/
inductive NameOwner
  | virtual
  | plugin (id : String)
  | toolsFamily
  deriving DecidableEq, Repr

namespace ToolClaim

/-- `VIRTUAL`. -/
def virtualNames : List String :=
  ["agent_spawn", "apply_daemon_update", "bootstrap_node", "cancel_schedule", "cancel_wakeup",
   "convene_council", "courier_cancel", "courier_queue", "courier_status", "goal_cancel",
   "goal_create", "goal_resume", "goal_step", "list_goals", "list_mesh_peers", "list_schedules",
   "list_wakeups", "list_workers", "mandala_close", "mandala_create", "mandala_status",
   "mesh_capabilities", "mesh_file_send", "mesh_memory_send", "mesh_procedure_send",
   "mesh_recall", "propose_evolution", "query_event_log", "read_soul_md", "rollback_evolution",
   "schedule_task", "schedule_wakeup", "send_to_agent", "session_list", "session_search",
   "soul_rehearse", "task_fanout", "vast_destroy", "vast_launch", "vast_list_recipes",
   "vast_status", "worker_cancel", "worker_report"]

/-- `CEREBRO`. -/
def cerebro : List String :=
  ["activation_at_risk", "activation_curve", "activation_heatmap", "associate", "audit_summary",
   "bulk_delete", "check_inbox", "check_near_duplicates", "cognitive_bootstrap",
   "common_neighbors", "cortex_stats", "create_schema", "delete_memory", "delete_tag",
   "describe_image", "dream_run", "dream_status", "emotional_summary", "episode_add_step",
   "episode_end", "episode_start", "export_memories", "find_by_tags", "find_matching_schemas",
   "find_path", "find_relevant_procedures", "get_episode", "get_episode_memories", "get_memory",
   "get_memory_versions", "get_schema_sources", "get_thread_memories", "ingest_file",
   "list_agents", "list_deleted", "list_episodes", "list_intentions", "list_procedures",
   "list_schemas", "list_tags", "list_threads", "memory_graph_stats", "memory_health",
   "memory_neighbors", "memory_search", "memory_store", "merge_tags", "prune_thread",
   "purge_all_deleted", "purge_memory", "query_audit", "recall", "record_procedure_outcome",
   "register_agent", "remember", "rename_tag", "resolve_intention", "restore_memory",
   "restore_version", "search_vision", "send_message", "session_recall", "session_save",
   "share_memory", "store_intention", "store_procedure", "update_memory"]

/-- `APEXOS_TOOLS`. -/
def apexosTools : List String :=
  ["audio_analyze", "audio_clean", "audio_normalize", "audio_peak_limit", "audio_trim",
   "audio_trim_silence", "camera_capture", "cpu_temp", "create_dir", "delete_path",
   "disk_usage", "display_face", "eject_media", "git_branch", "git_checkout", "git_commit",
   "git_diff", "git_init", "git_log", "git_merge", "git_push", "git_reset", "git_status",
   "git_worktree", "gpio_info", "gpio_pulse", "gpio_pwm", "gpio_read", "gpio_servo",
   "gpio_write", "http_fetch", "list_dir", "memory_info", "notes_append", "notes_list",
   "notes_read", "notify", "read_file", "run_command", "screenshot_mirror", "sketch_draw",
   "sketch_snapshot", "ui_arrange", "ui_close", "ui_focus", "ui_open", "ui_query", "ui_reflex",
   "ui_theme", "uptime", "write_file"]

/-- `OCCIPITAL`. -/
def occipital : List String :=
  ["web_click", "web_distill", "web_dom", "web_fetch", "web_forget", "web_recall",
   "web_related", "web_save", "web_search", "web_submit"]

/-- `IMAGINARIUM`. -/
def imaginarium : List String :=
  ["imaginarium_craft_video", "imaginarium_estimate", "imaginarium_image_edit",
   "imaginarium_image_generate", "imaginarium_job_status", "imaginarium_job_wait",
   "imaginarium_jobs_list", "imaginarium_models", "imaginarium_video_edit",
   "imaginarium_video_extend", "imaginarium_video_generate"]

/-- `SONUS`. -/
def sonus : List String :=
  ["check_status", "download_track", "generate_song"]

/-- `name_owner`. -/
def nameOwner (name : String) : Option NameOwner :=
  if name ∈ virtualNames then some .virtual
  else if name ∈ cerebro then some (.plugin "cerebro")
  else if name ∈ apexosTools then some .toolsFamily
  else if name ∈ occipital then some (.plugin "occipital")
  else if name ∈ imaginarium then some (.plugin "imaginarium")
  else if name ∈ sonus then some (.plugin "sonus")
  else if "aditus_".toList.isPrefixOf name.toList then some (.plugin "aditus")
  else none

/-- `is_tools_family`. -/
def isToolsFamily (plugin : String) : Bool :=
  plugin == "apexos-tools" || plugin == "apexos-net" || plugin == "apexos-dev"

/-- `stolen_allowlist`. -/
def stolenAllowlist (tool : String) (plugin : Option String) : Bool :=
  match nameOwner tool, plugin with
  | some .virtual, plugin => plugin.isSome
  | some (.plugin expected), some p => p != expected
  | some .toolsFamily, some p => !isToolsFamily p
  | _, _ => false

end ToolClaim

/-! ### The rules -/

/-- `PolicyMode`. -/
inductive PolicyMode
  | suggest
  | autoEdit
  | yolo
  deriving DecidableEq, Repr

/-- `Rule`. -/
inductive Rule
  | allow
  | ask
  | workspace
  deriving DecidableEq, Repr

/-- `Decision`. -/
inductive Decision
  | allow
  | ask
  deriving DecidableEq, Repr

/-- `PolicyConfig`. -/
structure PolicyConfig where
  mode : PolicyMode
  rules : List (String × Rule)
  deriving DecidableEq, Repr

/-- `matches_wildcard`. -/
def matchesWildcard (pattern tool : String) : Bool :=
  pattern == tool ||
    (".*".toList.isSuffixOf pattern.toList && pattern.toList.dropLast.isPrefixOf tool.toList)

namespace PolicyEngine

variable (config : PolicyConfig) (inWorkspace : String → Bool)

/-- `PolicyEngine::find_rule`. -/
def findRule (tool : String) : Option Rule :=
  (config.rules.lookup tool).or
    ((config.rules.find? fun r => matchesWildcard r.1 tool).map Prod.snd)

/-- `PolicyEngine::workspace_decision`. -/
def workspaceDecision (path : Option String) : Decision :=
  match path with
  | none => .ask
  | some p =>
    if "..".toList <:+: p.toList then .ask else if inWorkspace p then .allow else .ask

/-- `PolicyEngine::apply_rule`. -/
def applyRule (rule : Option Rule) (path : Option String) : Decision :=
  match rule with
  | none => .ask
  | some .allow => .allow
  | some .ask => .ask
  | some .workspace => workspaceDecision inWorkspace path

/-- `PolicyEngine::check_for`. -/
def checkFor (tool : String) (plugin path : Option String) : Decision :=
  if config.mode = .yolo then .allow
  else if ToolClaim.stolenAllowlist tool plugin then .ask
  else applyRule inWorkspace (findRule config tool) path

end PolicyEngine

/-! ### The grant -/

/-- `YOLO_GRANT_KEY`. -/
def yoloGrantKey : String := "__yolo_granted"

/-- `requests_yolo_elevation`. -/
def requestsYoloElevation (tool : String) (args : Json) : Bool :=
  tool == "goal_create" && ((args.get? "yolo").bind Json.asBool).getD false

/-- `yolo_grant_present`. -/
def yoloGrantPresent (args : Json) : Bool :=
  ((args.get? yoloGrantKey).bind Json.asBool).getD false

/-- `apply_yolo_grant`. -/
def applyYoloGrant (tool : String) (args : Json) (approved : Bool) : Json :=
  let args := args.erase yoloGrantKey
  if approved && requestsYoloElevation tool args then args.insert yoloGrantKey (.bool true)
  else args

variable {tool : String} {args : Json} {approved : Bool}

theorem requestsYoloElevation_erase :
    requestsYoloElevation tool (args.erase yoloGrantKey) = requestsYoloElevation tool args := by
  rw [requestsYoloElevation, requestsYoloElevation, Json.get?_erase_of_ne (by decide)]

/-- The stamp does not touch the request. -/
@[simp] theorem requestsYoloElevation_applyYoloGrant :
    requestsYoloElevation tool (applyYoloGrant tool args approved)
      = requestsYoloElevation tool args := by
  rw [applyYoloGrant]
  split
  · rw [requestsYoloElevation, Json.get?_insert_of_ne (by decide), ← requestsYoloElevation,
      requestsYoloElevation_erase]
  · exact requestsYoloElevation_erase

theorem isObject_of_requestsYoloElevation (h : requestsYoloElevation tool args = true) :
    args.isObject = true := by
  rw [requestsYoloElevation, Bool.and_eq_true] at h
  cases hget : args.get? "yolo" with
  | none => simp [hget] at h
  | some value => exact Json.isObject_of_get? hget

/-- **The stamp decides**: whatever the model wrote, the grant key is there exactly when the call
was approved and asks for the elevation. -/
theorem get?_applyYoloGrant :
    (applyYoloGrant tool args approved).get? yoloGrantKey
      = if approved && requestsYoloElevation tool args then some (.bool true) else none := by
  rw [applyYoloGrant, requestsYoloElevation_erase]
  split
  · rename_i h
    rw [Bool.and_eq_true] at h
    refine Json.get?_insert_self ?_
    rw [Json.isObject_erase]
    exact isObject_of_requestsYoloElevation h.2
  · exact Json.get?_erase_self _ _

end ApexOS.Agentd
