import ApexOS.Agentd.Policy
import ApexOS.Lib.Table
import ApexOS.Lib.Toml

/-!
# Evolution and its rollback

`agentd/crates/agentd/src/evolution.rs` with the edits `main.rs` makes of it: a proposal changes one
file, and what undoes it is another proposal, planned from what the file said before.

The plan for an unregistered server knows its command and nothing else. The edits, on the other
hand, act on documents: a new table goes to the end, the first table of a name is the one removed,
and an edit that does not find the form it expects does nothing. So an undo restores some files and
not others. `Reversible` says which, from the files as they were before the proposal.

Files are the documents they hold. Writing them, the running plugins and the wishlist are left out.

## Main definitions

* `invert`, `policyTomlSetRule`, `pluginsTomlAdd`, `pluginsTomlRemove`: the plan and the edits
* `RollsBack`: the proposal shows, and undoing it restores the configuration
* `Reversible`: when it does, read off the files

## Main results

* `policyTomlSetRule_undo`: a rule that had a value gets it back
* `map_eraseP_append`: what a registration and its undo leave of a list
* `rollsBack_iff_reversible`: exactly the reversible proposals are undone
-/

namespace ApexOS.Agentd.Evolution

/-! ### The policy file -/

/-- `PolicyRule`. -/
inductive PolicyRule
  | allow
  | ask
  | workspace
  deriving DecidableEq, Repr

/-- `PolicyRule::as_toml_str`. -/
def PolicyRule.asTomlStr : PolicyRule → String
  | allow => "allow"
  | ask => "ask"
  | workspace => "workspace"

/-- `PolicyRule::from_toml_str`. -/
def PolicyRule.fromTomlStr (s : String) : Option PolicyRule :=
  if s = "allow" then some allow
  else if s = "ask" then some ask
  else if s = "workspace" then some workspace
  else none

theorem PolicyRule.asTomlStr_of_fromTomlStr {s : String} {rule : PolicyRule}
    (h : fromTomlStr s = some rule) : rule.asTomlStr = s := by
  simp only [fromTomlStr] at h
  split_ifs at h <;> cases h <;> simp [asTomlStr, *]

/-- `From<PolicyRule> for Rule`. -/
def Rule.ofPolicyRule : PolicyRule → Rule
  | .allow => .allow
  | .ask => .ask
  | .workspace => .workspace

/-- `Rule`, as it is deserialised. -/
def Rule.ofToml (v : Toml) : Option Rule :=
  v.asVariant.bind fun name => (PolicyRule.fromTomlStr name).map Rule.ofPolicyRule

@[simp] theorem Rule.ofToml_asTomlStr (rule : PolicyRule) :
    Rule.ofToml (.string rule.asTomlStr) = some (Rule.ofPolicyRule rule) := by
  cases rule <;> rfl

/-- `PolicyMode`, as it is deserialised. -/
def PolicyMode.ofToml (v : Toml) : Option PolicyMode :=
  v.asVariant.bind fun name =>
    if name = "suggest" then some .suggest
    else if name = "auto-edit" then some .autoEdit
    else if name = "yolo" then some .yolo
    else none

/-- `SubagentsConfig`. -/
structure SubagentsConfig where
  maxDepth : ℕ
  maxConcurrent : ℕ
  inheritMode : Bool
  deriving DecidableEq, Repr

/-- `SubagentsConfig`, as it is deserialised. -/
def SubagentsConfig.ofToml (v : Toml) : Option SubagentsConfig := do
  let entries ← v.asMap
  let maxDepth ← Toml.orDefault entries "max_depth" Toml.asU32 4
  let maxConcurrent ← Toml.orDefault entries "max_concurrent" Toml.asU32 16
  let inheritMode ← Toml.orDefault entries "inherit_mode" Toml.asBool true
  return { maxDepth, maxConcurrent, inheritMode }

/-- `PolicyConfig::parse`. The limits for sub-agents have to read; nothing else here uses them. -/
def PolicyConfig.parse (doc : Toml.Doc) : Option PolicyConfig := do
  let mode ← Toml.orDefault doc.entries "mode" PolicyMode.ofToml .suggest
  let rules ← Toml.orDefault doc.entries "rules" (Toml.readMap Rule.ofToml) []
  let _ ← Toml.orDefault doc.entries "subagents" SubagentsConfig.ofToml
    { maxDepth := 4, maxConcurrent := 16, inheritMode := true }
  return { mode, rules }

/-- `policy_rule_from_toml`. -/
def policyRuleFromToml (doc : Toml.Doc) (toolPattern : String) : Option PolicyRule := do
  let rules ← (← doc.get? "rules").asTable
  let s ← (← rules.lookup toolPattern).asStr
  PolicyRule.fromTomlStr s

/-- The rules as the edit finds them: an empty table if there are none yet, and nothing at all if
they are not a table that was written as one. -/
def rulesTable (doc : Toml.Doc) : Option (List (String × Toml)) :=
  match doc.get? "rules" with
  | none => some []
  | some rules => rules.asTable

/-- `policy_toml_set_rule`. -/
def policyTomlSetRule (doc : Toml.Doc) (toolPattern : String) (rule : PolicyRule) :
    Option (Toml.Doc × PolicyConfig) :=
  let edited := match rulesTable doc with
    | some rules => doc.set "rules" (.table (setEntry toolPattern (.string rule.asTomlStr) rules))
    | none => doc
  -- a document that no longer reads as a policy never reaches the file
  (PolicyConfig.parse edited).map (edited, ·)

/-! ### The plugin file -/

/-- `RestartPolicy`. -/
inductive RestartPolicy
  | always
  | onFailure
  | never
  deriving DecidableEq, Repr

/-- `RestartPolicy`, as it is deserialised. -/
def RestartPolicy.ofToml (v : Toml) : Option RestartPolicy :=
  v.asVariant.bind fun name =>
    if name = "always" then some .always
    else if name = "on-failure" then some .onFailure
    else if name = "never" then some .never
    else none

/-- `PluginTransport`. -/
inductive PluginTransport
  | stdio
  | unix
  deriving DecidableEq, Repr

/-- `PluginTransport`, as it is deserialised. -/
def PluginTransport.ofToml (v : Toml) : Option PluginTransport :=
  v.asVariant.bind fun name =>
    if name = "stdio" then some .stdio else if name = "unix" then some .unix else none

/-- `PluginConfig`, all of it. -/
structure PluginConfig where
  id : String
  cmd : String
  args : List String
  restart : RestartPolicy
  cwd : Option String
  env : Option (List (String × String))
  transport : PluginTransport
  socket : Option String
  deriving DecidableEq, Repr

/-- `PluginConfig`, as it is deserialised. -/
def PluginConfig.ofToml (v : Toml) : Option PluginConfig := do
  let entries ← v.asMap
  let id ← Toml.required entries "id" Toml.asStr
  let cmd ← Toml.required entries "cmd" Toml.asStr
  let args ← Toml.orDefault entries "args" (Toml.readSeq Toml.asStr) []
  let restart ← Toml.orDefault entries "restart" RestartPolicy.ofToml .never
  let cwd ← Toml.optional entries "cwd" Toml.asStr
  let env ← Toml.optional entries "env" (Toml.readMap Toml.asStr)
  let transport ← Toml.orDefault entries "transport" PluginTransport.ofToml .stdio
  let socket ← Toml.optional entries "socket" Toml.asStr
  return { id, cmd, args, restart, cwd, env, transport, socket }

/-- `config::load`, of `plugins.toml`. The list has to be there. -/
def loadPlugins (doc : Toml.Doc) : Option (List PluginConfig) :=
  Toml.required doc.entries "plugin" (Toml.readSeq PluginConfig.ofToml)

/-- The tables of the plugins as the edits find them. -/
def pluginTables (doc : Toml.Doc) : Option (List (List (String × Toml))) :=
  (doc.get? "plugin").bind Toml.asArrayOfTables

/-- The table has this id. -/
def idIs (name : String) (tbl : List (String × Toml)) : Bool :=
  (tbl.lookup "id").bind Toml.asStr == some name

/-- `plugin_cmd_from_toml`. -/
def pluginCmdFromToml (doc : Toml.Doc) (name : String) : Option String := do
  let tbl ← (← pluginTables doc).find? (idIs name)
  (← tbl.lookup "cmd").asStr

/-- The table that a registration appends. -/
def registeredTable (name command : String) (env : Table String String) : List (String × Toml) :=
  let tbl := setEntry "restart" (.string "always")
    (setEntry "cmd" (.string command) (setEntry "id" (.string name) []))
  if env.entries.isEmpty then tbl
  else
    let envInline := env.entries.foldl (fun acc e => setEntry e.1 (Toml.string e.2) acc) []
    setEntry "env" (.inlineTable envInline) tbl

/-- `plugins_toml_add`. -/
def pluginsTomlAdd (doc : Toml.Doc) (name command : String) (env : Table String String) :
    Toml.Doc :=
  match pluginTables doc with
  | some arr => doc.set "plugin" (.arrayOfTables (arr ++ [registeredTable name command env]))
  | none => doc

/-- `plugins_toml_remove`. -/
def pluginsTomlRemove (doc : Toml.Doc) (name : String) : Toml.Doc :=
  match pluginTables doc with
  | some arr =>
    match arr.findIdx? (idIs name) with
    | some i => doc.set "plugin" (.arrayOfTables (arr.eraseIdx i))
    | none => doc
  | none => doc

/-! ### Proposals -/

/-- `Subsystem`. -/
inductive Subsystem
  | plugins
  | policy
  | agent
  | gateway
  deriving DecidableEq, Repr

/-- `EvolutionProposal`. -/
inductive EvolutionProposal
  | registerMcpServer (name command : String) (env : Table String String) (reason : String)
  | unregisterMcpServer (name reason : String)
  | updatePolicyRule (toolPattern : String) (newRule : PolicyRule) (reason : String)
  | updateSystemPrompt (content reason : String)
  | hotReloadSubsystem (subsystem : Subsystem)
  | requestHardware (part capability reason bus source : String)

/-- `Prior`. -/
structure Prior where
  oldSoul : Option String := none
  oldPolicyRule : Option PolicyRule := none
  oldPluginCmd : Option String := none

/-- `invert`. -/
def invert (proposal : EvolutionProposal) (prior : Prior) : Option EvolutionProposal :=
  match proposal with
  | .updateSystemPrompt _ _ => prior.oldSoul.map (.updateSystemPrompt · "rollback")
  | .updatePolicyRule toolPattern _ _ =>
    prior.oldPolicyRule.map (.updatePolicyRule toolPattern · "rollback")
  | .registerMcpServer name _ _ _ => some (.unregisterMcpServer name "rollback")
  | .unregisterMcpServer name _ =>
    prior.oldPluginCmd.map (.registerMcpServer name · Table.empty "rollback")
  | .hotReloadSubsystem _ => none
  | .requestHardware .. => none

/-- What the proposals change: `soul.md`, `policy.toml` and `plugins.toml`. -/
structure Files where
  soul : String
  policy : Toml.Doc
  plugins : Toml.Doc

/-- The part of `compute_undo` that reads the files. -/
def Files.prior (files : Files) : EvolutionProposal → Prior
  | .updateSystemPrompt _ _ => { oldSoul := some files.soul }
  | .updatePolicyRule toolPattern _ _ =>
    { oldPolicyRule := policyRuleFromToml files.policy toolPattern }
  | .unregisterMcpServer name _ => { oldPluginCmd := pluginCmdFromToml files.plugins name }
  | _ => {}

/-- `compute_undo`. -/
def computeUndo (files : Files) (proposal : EvolutionProposal) : Option EvolutionProposal :=
  invert proposal (files.prior proposal)

/-- `apply_evolution`, on the files; `none` for an edit that was refused. -/
def applyEvolution (files : Files) : EvolutionProposal → Option Files
  | .updateSystemPrompt content _ => some { files with soul := content }
  | .updatePolicyRule toolPattern newRule _ =>
    (policyTomlSetRule files.policy toolPattern newRule).map fun r => { files with policy := r.1 }
  | .registerMcpServer name command env _ =>
    some { files with plugins := pluginsTomlAdd files.plugins name command env }
  | .unregisterMcpServer name _ =>
    some { files with plugins := pluginsTomlRemove files.plugins name }
  -- a reload only reads, and a request for hardware goes to the wishlist
  | .hotReloadSubsystem _ | .requestHardware .. => some files

/-! ### What a rollback should restore -/

/-- What a plugin is run with. -/
structure PluginConfig.Meaning where
  id : String
  cmd : String
  args : List String
  env : String → Option String
  restart : RestartPolicy

/-- What the plugin is run with: its environment by variable. -/
def PluginConfig.meaning (c : PluginConfig) : PluginConfig.Meaning where
  id := c.id
  cmd := c.cmd
  args := c.args
  env k := (c.env.getD []).lookup k
  restart := c.restart

/-- The plugin that a registration asks for. -/
def PluginConfig.registered (name command : String) (env : Table String String) : PluginConfig where
  id := name
  cmd := command
  args := []
  restart := .always
  cwd := none
  env := if env.entries.isEmpty then none else some env.entries
  transport := .stdio
  socket := none

/-- The same rule for every tool, and the same plugins. -/
def SameMeaning (files files' : Files) : Prop :=
  files'.soul = files.soul ∧
  (∀ tool, (PolicyConfig.parse files'.policy).map (PolicyEngine.findRule · tool)
    = (PolicyConfig.parse files.policy).map (PolicyEngine.findRule · tool)) ∧
  (loadPlugins files'.plugins).map (List.map PluginConfig.meaning)
    = (loadPlugins files.plugins).map (List.map PluginConfig.meaning)

/-- What the proposal asked for is in the files. -/
def Visible (files : Files) : EvolutionProposal → Prop
  | .registerMcpServer name command env _ => ∃ plugins, loadPlugins files.plugins = some plugins ∧
      ∃ c ∈ plugins, c.meaning = (PluginConfig.registered name command env).meaning
  | .updatePolicyRule toolPattern newRule _ => ∃ policy,
      PolicyConfig.parse files.policy = some policy ∧
      policy.rules.lookup toolPattern = some (Rule.ofPolicyRule newRule)
  | _ => True

/-- Once applied, the proposal shows; and its undo, where there is one, can be applied and gives the
files their meaning back. -/
def RollsBack (files : Files) (proposal : EvolutionProposal) : Prop :=
  ∀ files', applyEvolution files proposal = some files' → Visible files' proposal ∧
    ∀ undo, computeUndo files proposal = some undo →
      ∃ files'', applyEvolution files' undo = some files'' ∧ SameMeaning files files''

/-- When it does: what the files must be like.

A rule needs its table. A registered plugin must not share its id with another, unless from that one
on the list only repeats it; an unregistered one must come last and be no more than its id and
command, and there must be another one to keep the list in the file. -/
def Reversible (files : Files) (policy : PolicyConfig) (plugins : List PluginConfig) :
    EvolutionProposal → Prop
  | .updatePolicyRule toolPattern newRule _ =>
    rulesTable files.policy = none →
      policy.rules.lookup toolPattern = some (Rule.ofPolicyRule newRule)
  | .registerMcpServer name command env _ =>
    let new := (PluginConfig.registered name command env).meaning
    if pluginTables files.plugins = none then ∃ c ∈ plugins, c.meaning = new
    else ∀ c ∈ plugins.dropWhile fun c => c.id ≠ name, c.meaning = new
  | .unregisterMcpServer name _ =>
    (∃ c ∈ plugins, c.id = name) → pluginTables files.plugins ≠ none → 2 ≤ plugins.length ∧
      ∃ command, ∀ c ∈ plugins.dropWhile fun c => c.id ≠ name,
        c.meaning = (PluginConfig.registered name command Table.empty).meaning
  | _ => True

/-! ### Rules -/

section Rules

variable {doc : Toml.Doc} {policy : PolicyConfig} {toolPattern : String} {rule : PolicyRule}
  {rules : List (String × Toml)}

theorem parse_eq_some_iff : PolicyConfig.parse doc = some policy ↔
    Toml.orDefault doc.entries "mode" PolicyMode.ofToml .suggest = some policy.mode ∧
    Toml.orDefault doc.entries "rules" (Toml.readMap Rule.ofToml) [] = some policy.rules ∧
    (Toml.orDefault doc.entries "subagents" SubagentsConfig.ofToml
      { maxDepth := 4, maxConcurrent := 16, inheritMode := true }).isSome := by
  cases policy with
  | mk mode rules =>
    simp only [PolicyConfig.parse, Option.bind_eq_bind, Option.bind_eq_some_iff, Option.pure_def,
      Option.some.injEq, PolicyConfig.mk.injEq, Option.isSome_iff_exists]
    constructor
    · rintro ⟨_, hmode, _, hrules, limits, hlimits, rfl, rfl⟩
      exact ⟨hmode, hrules, limits, hlimits⟩
    · rintro ⟨hmode, hrules, limits, hlimits⟩
      exact ⟨mode, hmode, rules, hrules, limits, hlimits, rfl, rfl⟩

/-- The rules that a readable document has are those of the table the edit finds. -/
theorem mapM_rulesTable (h : PolicyConfig.parse doc = some policy)
    (hrules : rulesTable doc = some rules) :
    rules.mapM (fun e => (Rule.ofToml e.2).map (e.1, ·)) = some policy.rules := by
  have hread := (parse_eq_some_iff.mp h).2.1
  have hlookup : doc.entries.lookup "rules" = doc.get? "rules" := rfl
  rw [Toml.orDefault, hlookup] at hread
  rw [rulesTable] at hrules
  cases hget : doc.get? "rules" with
  | none =>
    rw [hget] at hread hrules
    cases hrules
    exact hread
  | some v =>
    rw [hget] at hread hrules
    cases v with
    | table entries =>
      cases hrules
      exact hread
    | _ => cases hrules

/-- **The rule is set**, when the rules are a table or are not there yet. -/
theorem policyTomlSetRule_eq_some (toolPattern : String) (rule : PolicyRule)
    (h : PolicyConfig.parse doc = some policy) (hrules : rulesTable doc = some rules) :
    policyTomlSetRule doc toolPattern rule = some
      (doc.set "rules" (.table (setEntry toolPattern (.string rule.asTomlStr) rules)),
        { policy with
          rules := setEntry toolPattern (Rule.ofPolicyRule rule) policy.rules }) := by
  have hread : Toml.readMap Rule.ofToml
      (.table (setEntry toolPattern (.string rule.asTomlStr) rules))
        = some (setEntry toolPattern (Rule.ofPolicyRule rule) policy.rules) :=
    mapM_setEntry (mapM_rulesTable h hrules) (Rule.ofToml_asTomlStr rule)
  obtain ⟨hmode, -, hlimits⟩ := parse_eq_some_iff.mp h
  rw [policyTomlSetRule, hrules]
  refine Option.map_eq_some_iff.mpr ⟨_, parse_eq_some_iff.mpr ⟨?_, ?_, ?_⟩, rfl⟩
  · rw [Toml.Doc.orDefault_set_of_ne doc (by decide)]
    exact hmode
  · rw [Toml.Doc.orDefault_set_self doc rfl]
    exact hread
  · rw [Toml.Doc.orDefault_set_of_ne doc (by decide)]
    exact hlimits

/-- What reaches the file reads as the policy that goes live. -/
theorem parse_of_policyTomlSetRule {doc' : Toml.Doc} {policy' : PolicyConfig}
    (h : policyTomlSetRule doc toolPattern rule = some (doc', policy')) :
    PolicyConfig.parse doc' = some policy' := by
  obtain ⟨c, hc, heq⟩ := Option.map_eq_some_iff.mp h
  cases heq
  exact hc

/-- An edit that does not find its table does nothing. -/
theorem policyTomlSetRule_of_none (h : PolicyConfig.parse doc = some policy)
    (hrules : rulesTable doc = none) :
    policyTomlSetRule doc toolPattern rule = some (doc, policy) := by
  simp [policyTomlSetRule, hrules, h]

theorem policyRuleFromToml_eq_some_iff {old : PolicyRule} :
    policyRuleFromToml doc toolPattern = some old ↔
      ∃ rules, doc.get? "rules" = some (.table rules) ∧
        rules.lookup toolPattern = some (.string old.asTomlStr) := by
  simp only [policyRuleFromToml, Option.bind_eq_bind, Option.bind_eq_some_iff]
  constructor
  · rintro ⟨v, hv, rules, hrules, w, hw, s, hs, hold⟩
    cases v with
    | table entries =>
      cases hrules
      cases w with
      | string s' =>
        cases hs
        rw [PolicyRule.asTomlStr_of_fromTomlStr hold]
        exact ⟨rules, hv, hw⟩
      | _ => cases hs
    | _ => cases hrules
  · rintro ⟨rules, hv, hw⟩
    exact ⟨_, hv, rules, rfl, _, hw, _, rfl, by cases old <;> rfl⟩

/-- **A rule that had a value gets it back**: the document is the one before the edit. -/
theorem policyTomlSetRule_undo {old : PolicyRule} (h : PolicyConfig.parse doc = some policy)
    (hold : policyRuleFromToml doc toolPattern = some old) :
    ∃ doc' policy', policyTomlSetRule doc toolPattern rule = some (doc', policy') ∧
      ∃ policy'', policyTomlSetRule doc' toolPattern old = some (doc, policy'') := by
  obtain ⟨rules, hget, hlookup⟩ := policyRuleFromToml_eq_some_iff.mp hold
  have hrules : rulesTable doc = some rules := by
    rw [rulesTable, hget]
    rfl
  have hset := policyTomlSetRule_eq_some toolPattern rule h hrules
  refine ⟨_, _, hset, ?_⟩
  have hundo := policyTomlSetRule_eq_some toolPattern old
    (parse_of_policyTomlSetRule hset) (by rw [rulesTable, Toml.Doc.get?_set_self doc rfl]; rfl)
  have hback : setEntry toolPattern (.string old.asTomlStr)
      (setEntry toolPattern (.string rule.asTomlStr) rules) = rules := by
    rw [setEntry_setEntry, setEntry_eq_self hlookup]
  rw [hback, Toml.Doc.set_set doc rfl, Toml.Doc.set_self doc hget] at hundo
  exact ⟨_, hundo⟩

end Rules

/-! ### Lists of plugins -/

section Lists

variable {α β : Type*}

theorem concat_eq_cons_iff_forall (a n : α) (l : List α) :
    l ++ [n] = a :: l ↔ ∀ x ∈ a :: l, x = n := by
  induction l generalizing a with
  | nil => simp [eq_comm]
  | cons b l ih =>
    rw [List.cons_append, List.cons.injEq, ih b]
    simp only [List.mem_cons, forall_eq_or_imp]
    constructor
    · rintro ⟨rfl, h, hl⟩
      exact ⟨h, h, hl⟩
    · rintro ⟨rfl, rfl, hl⟩
      exact ⟨rfl, rfl, hl⟩

/-- **What a registration and its undo leave of a list**: the new entry goes to the end and the
first one of its name goes away, so the list is as before exactly when every entry from there on
repeats the new one. -/
theorem map_eraseP_append (f : α → β) {p : α → Bool} {n : α} (hn : p n = true) (l : List α) :
    ((l ++ [n]).eraseP p).map f = l.map f ↔ ∀ x ∈ l.dropWhile fun x => !p x, f x = f n := by
  induction l with
  | nil => simp [hn]
  | cons a l ih =>
    by_cases ha : p a = true
    · have hmap : (l ++ [n]).map f = l.map f ++ [f n] := List.map_append
      rw [List.cons_append, List.eraseP_cons_of_pos ha, hmap, List.map_cons,
        concat_eq_cons_iff_forall, List.dropWhile_cons_of_neg (by simp [ha]), ← List.map_cons,
        List.forall_mem_map]
    · rw [List.cons_append, List.eraseP_cons_of_neg ha, List.map_cons, List.map_cons,
        List.cons.injEq, ih, List.dropWhile_cons_of_pos (by simp [ha])]
      simp

theorem mem_dropWhile_of_find? {p : α → Bool} {l : List α} {a : α} (h : l.find? p = some a) :
    a ∈ l.dropWhile fun x => !p x := by
  induction l with
  | nil => cases h
  | cons b l ih =>
    by_cases hb : p b = true
    · rw [List.find?_cons_of_pos hb] at h
      rw [List.dropWhile_cons_of_neg (by simp [hb]), Option.some.inj h]
      exact List.mem_cons_self
    · rw [List.find?_cons_of_neg hb] at h
      rw [List.dropWhile_cons_of_pos (by simp [hb])]
      exact ih h

theorem mapM_eraseP {f : α → Option β} {p : α → Bool} {q : β → Bool} {l : List α} {r : List β}
    (h : l.mapM f = some r) (hpq : ∀ x y, f x = some y → p x = q y) :
    (l.eraseP p).mapM f = some (r.eraseP q) := by
  induction l generalizing r with
  | nil =>
    cases h
    rfl
  | cons a l ih =>
    obtain ⟨b, hb, bs, hbs, rfl⟩ : ∃ b, f a = some b ∧ ∃ bs, l.mapM f = some bs ∧ b :: bs = r := by
      simpa [List.mapM_cons, Option.bind_eq_some_iff] using h
    rw [List.eraseP_cons, List.eraseP_cons, hpq a b hb]
    cases q b with
    | true => exact hbs
    | false => simp [List.mapM_cons, hb, ih hbs]

theorem mapM_eq_nil_iff {f : α → Option β} {l : List α} {r : List β} (h : l.mapM f = some r) :
    l = [] ↔ r = [] := by
  cases l with
  | nil =>
    cases h
    simp
  | cons a l =>
    obtain ⟨b, -, bs, -, rfl⟩ : ∃ b, f a = some b ∧ ∃ bs, l.mapM f = some bs ∧ b :: bs = r := by
      simpa [List.mapM_cons, Option.bind_eq_some_iff] using h
    simp

theorem mapM_find? {f : α → Option β} {p : α → Bool} {q : β → Bool} {l : List α} {r : List β}
    (h : l.mapM f = some r) (hpq : ∀ x y, f x = some y → p x = q y) :
    (l.find? p).map f = (r.find? q).map some := by
  induction l generalizing r with
  | nil =>
    cases h
    rfl
  | cons a l ih =>
    obtain ⟨b, hb, bs, hbs, rfl⟩ : ∃ b, f a = some b ∧ ∃ bs, l.mapM f = some bs ∧ b :: bs = r := by
      simpa [List.mapM_cons, Option.bind_eq_some_iff] using h
    rw [List.find?_cons, List.find?_cons, hpq a b hb]
    cases q b with
    | true => exact congrArg some hb
    | false => exact ih hbs

end Lists

/-! ### Plugins -/

section Plugins

variable {doc : Toml.Doc} {plugins : List PluginConfig} {name command : String}
  {env : Table String String} {tables : List (List (String × Toml))}

theorem idIs_of_ofToml {tbl : List (String × Toml)} {c : PluginConfig}
    (h : PluginConfig.ofToml (.table tbl) = some c) : idIs name tbl = (c.id == name) := by
  simp only [PluginConfig.ofToml, Toml.asMap, Option.bind_eq_bind, Option.bind_some,
    Option.bind_eq_some_iff, Option.pure_def, Option.some.injEq] at h
  obtain ⟨id, hid, _, -, _, -, _, -, _, -, _, -, _, -, _, -, rfl⟩ := h
  rw [Toml.required] at hid
  simp [idIs, hid]

theorem cmd_of_ofToml {tbl : List (String × Toml)} {c : PluginConfig}
    (h : PluginConfig.ofToml (.table tbl) = some c) :
    (tbl.lookup "cmd").bind Toml.asStr = some c.cmd := by
  simp only [PluginConfig.ofToml, Toml.asMap, Option.bind_eq_bind, Option.bind_some,
    Option.bind_eq_some_iff, Option.pure_def, Option.some.injEq] at h
  obtain ⟨_, -, cmd, hcmd, _, -, _, -, _, -, _, -, _, -, _, -, rfl⟩ := h
  exact hcmd

theorem mapM_string (l : List (String × String)) :
    (l.map fun e => (e.1, Toml.string e.2)).mapM (fun e => (Toml.asStr e.2).map (e.1, ·))
      = some l := by
  induction l with
  | nil => rfl
  | cons e l ih =>
    rw [List.map_cons, List.mapM_cons, ih]
    rfl

/-- The table that a registration appends reads as the plugin it asks for. -/
theorem ofToml_registeredTable :
    PluginConfig.ofToml (.table (registeredTable name command env))
      = some (PluginConfig.registered name command env) := by
  rw [registeredTable, PluginConfig.registered]
  cases hempty : env.entries.isEmpty with
  | true => rfl
  | false =>
    have henv : env.entries.foldl (fun acc e => setEntry e.1 (Toml.string e.2) acc) []
        = env.entries.map fun e => (e.1, Toml.string e.2) := by
      have h := foldl_setEntry [] (env.entries.map fun e => (e.1, Toml.string e.2))
        (by simpa [List.map_map, Function.comp_def] using env.nodup)
      rwa [List.foldl_map, List.nil_append] at h
    have hread : Toml.readMap Toml.asStr
        (.inlineTable (env.entries.map fun e => (e.1, Toml.string e.2)))
        = some env.entries := mapM_string env.entries
    rw [henv]
    simp only [PluginConfig.ofToml, setEntry, Toml.asMap, Toml.required, Toml.orDefault,
      Toml.optional, Toml.asStr]
    simp [hread]
    rfl

/-! The edits, when the plugins are an array of tables. -/

theorem get?_of_pluginTables (h : pluginTables doc = some tables) :
    doc.get? "plugin" = some (.arrayOfTables tables) := by
  obtain ⟨v, hv, htables⟩ := Option.bind_eq_some_iff.mp h
  cases v with
  | arrayOfTables ts =>
    cases htables
    exact hv
  | _ => cases htables

theorem ne_nil_of_pluginTables (h : pluginTables doc = some tables) : tables ≠ [] := by
  rintro rfl
  obtain ⟨l₁, l₂, hl, -⟩ := List.lookup_eq_some_iff.mp (get?_of_pluginTables h)
  exact absurd (doc.written ("plugin", .arrayOfTables []) (by simp [hl])) (by decide)

theorem loadPlugins_of_tables (h : pluginTables doc = some tables) :
    loadPlugins doc = tables.mapM fun t => PluginConfig.ofToml (.table t) := by
  have hlookup : doc.entries.lookup "plugin" = some (.arrayOfTables tables) :=
    get?_of_pluginTables h
  simp [loadPlugins, Toml.required, hlookup, Toml.readSeq, Toml.asSeq, Function.comp_def]

theorem pluginTables_set (h : tables ≠ []) :
    pluginTables (doc.set "plugin" (.arrayOfTables tables)) = some tables := by
  have hv : (Toml.arrayOfTables tables).vanishes = false := by
    cases tables with
    | nil => exact absurd rfl h
    | cons t ts => rfl
  rw [pluginTables, Toml.Doc.get?_set_self doc hv]
  rfl

/-- With its last table the list goes out of the file. -/
theorem get?_set_nil : (doc.set "plugin" (.arrayOfTables [])).get? "plugin" = none := by
  rw [Toml.Doc.get?_set, if_pos rfl]
  rfl

theorem pluginsTomlAdd_of_tables (h : pluginTables doc = some tables) :
    pluginsTomlAdd doc name command env
      = doc.set "plugin" (.arrayOfTables (tables ++ [registeredTable name command env])) := by
  rw [pluginsTomlAdd, h]

theorem pluginsTomlRemove_of_tables (h : pluginTables doc = some tables) :
    pluginsTomlRemove doc name
      = doc.set "plugin" (.arrayOfTables (tables.eraseP (idIs name))) := by
  simp only [pluginsTomlRemove, h, List.eraseP_eq_eraseIdx]
  cases tables.findIdx? (idIs name) with
  | none => exact (Toml.Doc.set_self doc (get?_of_pluginTables h)).symm
  | some i => rfl

/-- A registration puts the plugin at the end. -/
theorem loadPlugins_add (name command : String) (env : Table String String)
    (h : pluginTables doc = some tables) (hload : loadPlugins doc = some plugins) :
    loadPlugins (pluginsTomlAdd doc name command env)
      = some (plugins ++ [PluginConfig.registered name command env]) := by
  rw [loadPlugins_of_tables h] at hload
  rw [pluginsTomlAdd_of_tables h, loadPlugins_of_tables (pluginTables_set (by simp)),
    List.mapM_append, hload]
  simp [List.mapM_cons, ofToml_registeredTable]

theorem eraseP_idIs_eq_nil_iff (h : pluginTables doc = some tables)
    (hload : loadPlugins doc = some plugins) :
    tables.eraseP (idIs name) = [] ↔ (plugins.eraseP fun c => c.id == name) = [] := by
  rw [loadPlugins_of_tables h] at hload
  exact mapM_eq_nil_iff (mapM_eraseP hload fun t c => idIs_of_ofToml)

/-- A removal takes the first of that id, if another plugin stays. -/
theorem loadPlugins_remove (name : String) (h : pluginTables doc = some tables)
    (hload : loadPlugins doc = some plugins) (hne : (plugins.eraseP fun c => c.id == name) ≠ []) :
    loadPlugins (pluginsTomlRemove doc name) = some (plugins.eraseP fun c => c.id == name) := by
  have hne' := mt (eraseP_idIs_eq_nil_iff h hload).mp hne
  rw [loadPlugins_of_tables h] at hload
  rw [pluginsTomlRemove_of_tables h, loadPlugins_of_tables (pluginTables_set hne')]
  exact mapM_eraseP hload fun t c => idIs_of_ofToml

theorem pluginCmdFromToml_of_tables (name : String) (h : pluginTables doc = some tables)
    (hload : loadPlugins doc = some plugins) :
    pluginCmdFromToml doc name = (plugins.find? fun c => c.id == name).map PluginConfig.cmd := by
  rw [loadPlugins_of_tables h] at hload
  have hfind := mapM_find? (p := idIs name) (q := fun c => c.id == name) hload
    fun t c => idIs_of_ofToml
  rw [pluginCmdFromToml, h]
  cases ht : tables.find? (idIs name) with
  | none =>
    cases hc : plugins.find? fun c => c.id == name with
    | none => simp [ht]
    | some c => simp [ht, hc] at hfind
  | some t =>
    cases hc : plugins.find? fun c => c.id == name with
    | none => simp [ht, hc] at hfind
    | some c =>
      have hread : PluginConfig.ofToml (.table t) = some c := by simpa [ht, hc] using hfind
      simpa [ht] using cmd_of_ofToml hread

end Plugins

/-! ### What is undone -/

section Rollback

variable {files : Files} {policy : PolicyConfig} {plugins : List PluginConfig} {reason : String}

theorem updatePolicyRule_rollsBack {toolPattern : String} {newRule : PolicyRule}
    (hpolicy : PolicyConfig.parse files.policy = some policy) :
    RollsBack files (.updatePolicyRule toolPattern newRule reason)
      ↔ Reversible files policy plugins (.updatePolicyRule toolPattern newRule reason) := by
  cases hrules : rulesTable files.policy with
  | none =>
    have happly : applyEvolution files (.updatePolicyRule toolPattern newRule reason)
        = some files := by
      simp [applyEvolution, policyTomlSetRule_of_none hpolicy hrules]
    have hundo : computeUndo files (.updatePolicyRule toolPattern newRule reason) = none := by
      rw [computeUndo, Files.prior, invert]
      cases hold : policyRuleFromToml files.policy toolPattern with
      | none => rfl
      | some old =>
        obtain ⟨entries, hget, -⟩ := policyRuleFromToml_eq_some_iff.mp hold
        rw [rulesTable, hget] at hrules
        cases hrules
    simp [RollsBack, Reversible, Visible, happly, hundo, hrules, hpolicy]
  | some rules =>
    refine iff_of_true (fun files' happly => ?_) fun h => by simp [hrules] at h
    obtain ⟨⟨doc', policy'⟩, hset, rfl⟩ := Option.map_eq_some_iff.mp happly
    refine ⟨⟨policy', parse_of_policyTomlSetRule hset, ?_⟩, fun undo hundo => ?_⟩
    · rw [policyTomlSetRule_eq_some _ _ hpolicy hrules] at hset
      cases hset
      exact lookup_setEntry_self _ _ _
    · obtain ⟨old, hold, rfl⟩ := Option.map_eq_some_iff.mp hundo
      obtain ⟨_, _, hset', policy'', hback⟩ := policyTomlSetRule_undo hpolicy hold
      cases hset.symm.trans hset'
      exact ⟨files, by simp [applyEvolution, hback], rfl, fun tool => rfl, rfl⟩

theorem dropWhile_id_ne (name : String) (plugins : List PluginConfig) :
    (plugins.dropWhile fun c => c.id ≠ name) = plugins.dropWhile fun c => !(c.id == name) := by
  congr 1
  funext c
  by_cases h : c.id = name <;> simp [h]

theorem registerMcpServer_rollsBack {name command : String} {env : Table String String}
    (hplugins : loadPlugins files.plugins = some plugins) :
    RollsBack files (.registerMcpServer name command env reason)
      ↔ Reversible files policy plugins (.registerMcpServer name command env reason) := by
  cases htables : pluginTables files.plugins with
  | none =>
    have hadd : pluginsTomlAdd files.plugins name command env = files.plugins := by
      rw [pluginsTomlAdd, htables]
    have hremove : pluginsTomlRemove files.plugins name = files.plugins := by
      rw [pluginsTomlRemove, htables]
    simp [RollsBack, Reversible, Visible, SameMeaning, applyEvolution, computeUndo, invert, hadd,
      hremove, htables, hplugins]
  | some tables =>
    have hload := loadPlugins_add name command env htables hplugins
    have hadded : pluginTables (pluginsTomlAdd files.plugins name command env)
        = some (tables ++ [registeredTable name command env]) := by
      rw [pluginsTomlAdd_of_tables htables, pluginTables_set (by simp)]
    have hplugins' : plugins ≠ [] := by
      rw [loadPlugins_of_tables htables] at hplugins
      exact mt (mapM_eq_nil_iff hplugins).mpr (ne_nil_of_pluginTables htables)
    have hremoved := loadPlugins_remove name hadded hload (by
      rw [Ne, List.eraseP_eq_nil_iff]
      simp [List.append_eq_singleton_iff, hplugins'])
    have hlist := map_eraseP_append PluginConfig.meaning (p := fun c => c.id == name)
      (n := PluginConfig.registered name command env) (by simp [PluginConfig.registered]) plugins
    have hsame : SameMeaning files { files with
        plugins := pluginsTomlRemove (pluginsTomlAdd files.plugins name command env) name } ↔
        ∀ c ∈ plugins.dropWhile fun c => c.id ≠ name,
          c.meaning = (PluginConfig.registered name command env).meaning := by
      rw [dropWhile_id_ne, ← hlist]
      simp [SameMeaning, hplugins, hremoved]
    simpa [RollsBack, Reversible, Visible, applyEvolution, computeUndo, invert, htables, hload]
      using hsame

theorem unregisterMcpServer_rollsBack {name : String}
    (hplugins : loadPlugins files.plugins = some plugins) :
    RollsBack files (.unregisterMcpServer name reason)
      ↔ Reversible files policy plugins (.unregisterMcpServer name reason) := by
  cases htables : pluginTables files.plugins with
  | none =>
    have hcmd : pluginCmdFromToml files.plugins name = none := by simp [pluginCmdFromToml, htables]
    simp [RollsBack, Reversible, Visible, applyEvolution, computeUndo, Files.prior, invert, hcmd,
      htables]
  | some tables =>
    have hcmd := pluginCmdFromToml_of_tables name htables hplugins
    cases hfind : plugins.find? fun c => c.id == name with
    | none =>
      have hno : ∀ c ∈ plugins, c.id ≠ name := by simpa using hfind
      rw [hfind, Option.map_none] at hcmd
      refine iff_of_true (fun files' _ => ⟨trivial, fun undo hundo => ?_⟩) ?_
      · simp [computeUndo, Files.prior, invert, hcmd] at hundo
      · rintro ⟨c, hc, hid⟩
        exact absurd hid (hno c hc)
    | some c =>
      have hid : c.id = name := by simpa using List.find?_some hfind
      have hmem : c ∈ plugins := List.mem_of_find?_eq_some hfind
      rw [hfind, Option.map_some] at hcmd
      set removed := pluginsTomlRemove files.plugins name with hremoved
      set restored := pluginsTomlAdd removed name c.cmd Table.empty with hrestored
      have hroll : RollsBack files (.unregisterMcpServer name reason)
          ↔ (loadPlugins restored).map (List.map PluginConfig.meaning)
            = some (plugins.map PluginConfig.meaning) := by
        simp [RollsBack, Visible, SameMeaning, applyEvolution, computeUndo, Files.prior, invert,
          hcmd, hplugins, ← hremoved, ← hrestored]
      rw [hroll]
      by_cases hrest : (plugins.eraseP fun c => c.id == name) = []
      · -- the last plugin goes, and with it the list that a registration would append to
        have hgone : removed.get? "plugin" = none := by
          rw [hremoved, pluginsTomlRemove_of_tables htables,
            (eraseP_idIs_eq_nil_iff htables hplugins).mpr hrest, get?_set_nil]
        have hsame : restored = removed := by
          simp [hrestored, pluginsTomlAdd, pluginTables, hgone]
        have hload : loadPlugins removed = none := by
          have hlookup : removed.entries.lookup "plugin" = none := hgone
          simp [loadPlugins, Toml.required, hlookup]
        refine iff_of_false (by simp [hsame, hload]) fun h => ?_
        obtain ⟨htwo, -⟩ := h ⟨c, hmem, hid⟩ (by simp [htables])
        rcases List.eraseP_eq_nil_iff.mp hrest with h | ⟨x, -, h⟩ <;> simp [h] at htwo
      · have hlen : (plugins.eraseP fun c => c.id == name).length = plugins.length - 1 :=
          List.length_eraseP_of_mem hmem (by simp [hid])
        have htwo : 2 ≤ plugins.length := by
          have hpos := List.length_pos_of_ne_nil hrest
          omega
        have htables' : pluginTables removed = some (tables.eraseP (idIs name)) := by
          rw [hremoved, pluginsTomlRemove_of_tables htables,
            pluginTables_set (mt (eraseP_idIs_eq_nil_iff htables hplugins).mp hrest)]
        have hload := loadPlugins_add name c.cmd Table.empty htables'
          (loadPlugins_remove name htables hplugins hrest)
        rw [← hrestored, ← List.eraseP_append_left (p := fun c => c.id == name) (by simp [hid]) _
          hmem] at hload
        rw [hload, Option.map_some, Option.some.injEq, map_eraseP_append PluginConfig.meaning
          (by simp [PluginConfig.registered]), ← dropWhile_id_ne]
        constructor
        · exact fun h _ _ => ⟨htwo, c.cmd, h⟩
        · intro h
          obtain ⟨-, command, hall⟩ := h ⟨c, hmem, hid⟩ (by simp [htables])
          have hc : c.meaning = (PluginConfig.registered name command Table.empty).meaning := by
            refine hall c ?_
            rw [dropWhile_id_ne]
            exact mem_dropWhile_of_find? hfind
          have hcmd : c.cmd = command := congrArg PluginConfig.Meaning.cmd hc
          rwa [hcmd]

/-- **Exactly the reversible proposals are undone**, whatever the two files say. -/
theorem rollsBack_iff_reversible (hpolicy : PolicyConfig.parse files.policy = some policy)
    (hplugins : loadPlugins files.plugins = some plugins) (proposal : EvolutionProposal) :
    RollsBack files proposal ↔ Reversible files policy plugins proposal := by
  cases proposal with
  | registerMcpServer name command env reason => exact registerMcpServer_rollsBack hplugins
  | unregisterMcpServer name reason => exact unregisterMcpServer_rollsBack hplugins
  | updatePolicyRule toolPattern newRule reason => exact updatePolicyRule_rollsBack hpolicy
  | updateSystemPrompt content reason =>
    refine iff_of_true (fun files' happly => ⟨trivial, fun undo hundo => ?_⟩) trivial
    cases happly
    cases hundo
    exact ⟨files, rfl, rfl, fun tool => rfl, rfl⟩
  | hotReloadSubsystem subsystem =>
    exact iff_of_true (fun files' _ => ⟨trivial, fun undo hundo => by cases hundo⟩) trivial
  | requestHardware part capability reason bus source =>
    exact iff_of_true (fun files' _ => ⟨trivial, fun undo hundo => by cases hundo⟩) trivial

/-- Files as they are shipped, cut to two plugins and three rules. -/
def shippedFiles : Files where
  soul := "You are APEX."
  policy :=
    { entries := [("mode", .string "suggest"), ("rules", .table [("read_file", .string "allow"),
        ("write_file", .string "workspace"), ("delete_path", .string "ask")])]
      nodup := by decide
      written := by simp [Toml.vanishes] }
  plugins :=
    { entries := [("plugin", .arrayOfTables
        [[("id", .string "cerebro"), ("cmd", .string "/usr/local/bin/cerebro-mcp"),
          ("args", .array []), ("restart", .string "always"),
          ("env", .table [("RUST_LOG", .string "warn")])],
         [("id", .string "apexos-tools"), ("cmd", .string "/usr/local/bin/apexos-tools"),
          ("args", .array [.string "--class", .string "fs"]), ("transport", .string "unix"),
          ("socket", .string "/run/apexos/tools-fs.sock"), ("restart", .string "always")]])]
      nodup := by decide
      written := by simp [Toml.vanishes] }

def shippedPolicy : PolicyConfig where
  mode := .suggest
  rules := [("read_file", .allow), ("write_file", .workspace), ("delete_path", .ask)]

def shippedPlugins : List PluginConfig :=
  [{ id := "cerebro", cmd := "/usr/local/bin/cerebro-mcp", args := [], restart := .always,
     cwd := none, env := some [("RUST_LOG", "warn")], transport := .stdio, socket := none },
   { id := "apexos-tools", cmd := "/usr/local/bin/apexos-tools", args := ["--class", "fs"],
     restart := .always, cwd := none, env := none, transport := .unix,
     socket := some "/run/apexos/tools-fs.sock" }]

/-- Unregistering a shipped worker and rolling that back loses its class. -/
theorem shipped_worker_loses_args : ¬ ∀ files policy plugins proposal,
    PolicyConfig.parse files.policy = some policy → loadPlugins files.plugins = some plugins →
      RollsBack files proposal := by
  intro h
  have hroll := h shippedFiles shippedPolicy shippedPlugins
    (.unregisterMcpServer "apexos-tools" "reason") (by decide +kernel) (by decide +kernel)
  obtain ⟨-, hundo⟩ := hroll _ rfl
  obtain ⟨files'', hfiles, -, -, hsame⟩ := hundo
    (.registerMcpServer "apexos-tools" "/usr/local/bin/apexos-tools" Table.empty "rollback")
    (by rfl)
  cases hfiles
  have hargs := congrArg (Option.map (List.map PluginConfig.Meaning.args)) hsame
  rw [Option.map_map, Option.map_map] at hargs
  revert hargs
  decide +kernel

/-- The iff at a shipped rule. -/
theorem rollsBack_iff_reversible_shipped :
    RollsBack shippedFiles (.updatePolicyRule "delete_path" .allow "reason")
      ↔ Reversible shippedFiles shippedPolicy shippedPlugins
        (.updatePolicyRule "delete_path" .allow "reason") :=
  rollsBack_iff_reversible (by decide +kernel) (by decide +kernel) _

end Rollback

end ApexOS.Agentd.Evolution
