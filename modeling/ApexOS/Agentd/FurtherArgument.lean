import ApexOS.Agentd.Supervisor

/-!
# A further argument

What the decision of the gate in `Supervisor.lean` makes of one more argument. Every path among the
arguments must lie in the workspace, so a further path can only turn an allowed call into one that
asks; but a call without any path asks under a `workspace` rule, and gets a path to be judged by
from the first that comes.

## Main results

* `mem_candidates_insert`: the paths with a further argument
* `Gate.asks_then_allows_iff`: which calls go from asking to allowed
* `Gate.asks_then_allows_writeFile`: one that does
-/

namespace ApexOS.Agentd

variable {args value : Json} {key : String}

theorem mem_candidates {p : String} :
    p ∈ candidates args ↔ ∃ k ∈ pathKeys, (args.get? k).bind Json.asStr = some p :=
  List.mem_filterMap

/-- **The paths with a further argument** are those without it, and its own. -/
theorem mem_candidates_insert (hobj : args.isObject = true) (hnew : args.get? key = none)
    {p : String} : p ∈ candidates (args.insert key value) ↔
      p ∈ candidates args ∨ key ∈ pathKeys ∧ value.asStr = some p := by
  rw [mem_candidates, mem_candidates]
  constructor
  · rintro ⟨k, hk, hp⟩
    by_cases hkey : k = key
    · subst hkey
      rw [Json.get?_insert_self hobj] at hp
      exact .inr ⟨hk, hp⟩
    · rw [Json.get?_insert_of_ne hkey] at hp
      exact .inl ⟨k, hk, hp⟩
  · rintro (⟨k, hk, hp⟩ | ⟨hk, hp⟩)
    · have hkey : k ≠ key := by
        rintro rfl
        simp [hnew] at hp
      exact ⟨k, hk, by rw [Json.get?_insert_of_ne hkey, hp]⟩
    · exact ⟨key, hk, by rw [Json.get?_insert_self hobj]; exact hp⟩

/-- A further argument withdraws no request for yolo. -/
theorem requestsYoloElevation_insert {tool : String} (hnew : args.get? key = none)
    (h : requestsYoloElevation tool args = true) :
    requestsYoloElevation tool (args.insert key value) = true := by
  have hkey : "yolo" ≠ key := by
    rintro rfl
    simp [requestsYoloElevation, hnew] at h
  rwa [requestsYoloElevation, Json.get?_insert_of_ne hkey, ← requestsYoloElevation]

/-- A path argument requests no yolo. -/
theorem requestsYoloElevation_insert_of_path {tool : String} (hkey : key ∈ pathKeys) :
    requestsYoloElevation tool (args.insert key value) = requestsYoloElevation tool args := by
  have hne : "yolo" ≠ key := by
    rintro rfl
    exact absurd hkey (by decide)
  rw [requestsYoloElevation, Json.get?_insert_of_ne hne, ← requestsYoloElevation]

/-- The call with a further argument. -/
def ToolCall.withArgument (call : ToolCall) (key : String) (value : Json) : ToolCall :=
  { call with args := call.args.insert key value }

namespace PolicyEngine

variable {config : PolicyConfig} {inWorkspace : String → Bool} {tool : String}
  {plugin : Option String}

/-- **Where a path decides**: a call asks without one, and is allowed with it. -/
theorem checkFor_none_and_some_iff (hmode : config.mode ≠ .yolo) (p : String) :
    checkFor config inWorkspace tool plugin none = .ask ∧
        checkFor config inWorkspace tool plugin (some p) = .allow ↔
      ToolClaim.stolenAllowlist tool plugin = false ∧ findRule config tool = some .workspace ∧
        ¬ "..".toList <:+: p.toList ∧ inWorkspace p = true := by
  rw [checkFor, checkFor, if_neg hmode, if_neg hmode]
  by_cases hstolen : ToolClaim.stolenAllowlist tool plugin = true
  · simp [hstolen]
  rw [if_neg hstolen, if_neg hstolen]
  cases hrule : findRule config tool with
  | none => simp [applyRule]
  | some rule =>
    cases rule with
    | allow => simp [applyRule]
    | ask => simp [applyRule]
    | workspace =>
      simp only [applyRule, workspaceDecision]
      by_cases hdots : "..".toList <:+: p.toList
      · rw [if_pos hdots]
        exact iff_of_false (by simp) fun h => h.2.2.1 hdots
      · rw [if_neg hdots]
        have hnot : ToolClaim.stolenAllowlist tool plugin = false := by simpa using hstolen
        refine ⟨fun h => ⟨hnot, trivial, hdots, ?_⟩, fun h => ⟨trivial, if_pos h.2.2.2⟩⟩
        by_contra hin
        simp [hin] at h

end PolicyEngine

namespace Gate

variable {g : Gate} {call : ToolCall}

/-- A call is allowed if it requests no yolo and the policy allows each of its paths, or the lack of
one. -/
theorem decision_eq_allow_iff (hmode : g.policy.mode ≠ .yolo) :
    g.decision call = .allow ↔ requestsYoloElevation call.tool call.args = false ∧
      (candidates call.args = [] →
        PolicyEngine.checkFor g.policy g.inWorkspace call.tool g.plugin none = .allow) ∧
      ∀ p ∈ candidates call.args,
        PolicyEngine.checkFor g.policy g.inWorkspace call.tool g.plugin (some p) = .allow := by
  rw [decision]
  by_cases hyolo : requestsYoloElevation call.tool call.args = true
  · simp [hyolo, hmode]
  rw [if_neg (by simp [hyolo])]
  by_cases hnone : candidates call.args = []
  · simp [hnone, hyolo]
  have hallow (d : Decision) : d = .allow ↔ ¬ d = .ask := by cases d <;> simp
  rw [if_neg hnone]
  split
  · rename_i hask
    obtain ⟨p, hp, hpask⟩ := List.any_eq_true.mp hask
    simp only [reduceCtorEq, false_iff, not_and, not_forall]
    exact fun _ _ => ⟨p, hp, (hallow _).not.mpr (by simpa using hpask)⟩
  · rename_i hask
    refine iff_of_true rfl ⟨by simpa using hyolo, fun h => absurd h hnone, fun p hp => ?_⟩
    rw [hallow]
    intro hpask
    exact hask (List.any_eq_true.mpr ⟨p, hp, by simpa using hpask⟩)

theorem decision_eq_ask_iff : g.decision call = .ask ↔ ¬ g.decision call = .allow := by
  cases g.decision call <;> simp

/-- **A further argument** turns a call that asks into one that is allowed only where there was no
path yet, under a `workspace` rule, and the argument is a path into the workspace. -/
theorem asks_then_allows_iff (g : Gate) (call : ToolCall) (key : String) (value : Json)
    (hmode : g.policy.mode ≠ .yolo) (hobj : call.args.isObject = true)
    (hnew : call.args.get? key = none) :
    g.decision call = .ask ∧ g.decision (call.withArgument key value) = .allow ↔
      candidates call.args = [] ∧ requestsYoloElevation call.tool call.args = false ∧
      ToolClaim.stolenAllowlist call.tool g.plugin = false ∧
      PolicyEngine.findRule g.policy call.tool = some .workspace ∧
      key ∈ pathKeys ∧ ∃ p, value.asStr = some p ∧ ¬ "..".toList <:+: p.toList ∧
        g.inWorkspace p = true := by
  have hpaths {p : String} : p ∈ candidates (call.args.insert key value) ↔
      p ∈ candidates call.args ∨ key ∈ pathKeys ∧ value.asStr = some p :=
    mem_candidates_insert hobj hnew
  rw [decision_eq_ask_iff, decision_eq_allow_iff hmode, decision_eq_allow_iff hmode]
  constructor
  · rintro ⟨hask, hyolo, hlack, hall⟩
    have hyolo₀ : requestsYoloElevation call.tool call.args = false := by
      by_contra h
      rw [Bool.not_eq_false] at h
      have hstill : requestsYoloElevation call.tool (call.args.insert key value) = true :=
        requestsYoloElevation_insert hnew h
      exact absurd (hyolo.symm.trans hstill) (by simp)
    have hall₀ : ∀ p ∈ candidates call.args,
        PolicyEngine.checkFor g.policy g.inWorkspace call.tool g.plugin (some p) = .allow :=
      fun p hp => hall p (hpaths.mpr (.inl hp))
    have hlack₀ : ¬ (candidates call.args = [] →
        PolicyEngine.checkFor g.policy g.inWorkspace call.tool g.plugin none = .allow) :=
      fun h => hask ⟨hyolo₀, h, hall₀⟩
    obtain ⟨hnone, hcheck⟩ := Classical.not_imp.mp hlack₀
    have hsome : candidates (call.withArgument key value).args ≠ [] :=
      fun h => hcheck (hlack h)
    obtain ⟨p, hp⟩ := List.exists_mem_of_ne_nil _ hsome
    obtain ⟨hkey, hvalue⟩ := (hpaths.mp hp).resolve_left (by simp [hnone])
    have hask' : PolicyEngine.checkFor g.policy g.inWorkspace call.tool g.plugin none = .ask := by
      cases h : PolicyEngine.checkFor g.policy g.inWorkspace call.tool g.plugin none with
      | ask => rfl
      | allow => exact absurd h hcheck
    obtain ⟨hstolen, hrule, hdots, hin⟩ :=
      (PolicyEngine.checkFor_none_and_some_iff hmode p).mp ⟨hask', hall p hp⟩
    exact ⟨hnone, hyolo₀, hstolen, hrule, hkey, p, hvalue, hdots, hin⟩
  · rintro ⟨hnone, hyolo, hstolen, hrule, hkey, p, hvalue, hdots, hin⟩
    have hcheck : PolicyEngine.checkFor g.policy g.inWorkspace call.tool g.plugin none = .ask ∧
        PolicyEngine.checkFor g.policy g.inWorkspace call.tool g.plugin (some p) = .allow :=
      (PolicyEngine.checkFor_none_and_some_iff hmode p).mpr ⟨hstolen, hrule, hdots, hin⟩
    obtain ⟨hask, hallow⟩ := hcheck
    refine ⟨fun h => ?_, (requestsYoloElevation_insert_of_path hkey).trans hyolo, fun h => ?_,
      fun q hq => ?_⟩
    · rw [h.2.1 hnone] at hask
      cases hask
    · exact absurd (hpaths.mpr (.inr ⟨hkey, hvalue⟩)) (by rw [ToolCall.withArgument] at h; simp [h])
    · obtain ⟨-, hq'⟩ := (hpaths.mp hq).resolve_left (by simp [hnone])
      obtain rfl := Option.some.inj (hvalue.symm.trans hq')
      exact hallow

/-- Files are written in one directory. -/
def writeGate : Gate where
  policy := ⟨.suggest, [("write_file", .workspace)]⟩
  plugin := some "apexos-tools"
  inWorkspace p := p == "/workspace/notes.md"
  hook _ := .execute
  goalYolo := false

/-- A file to write, without its name. -/
def writeFile : ToolCall := ⟨7, "write_file", .object [("content", .string "hello")]⟩

/-- A name outside the workspace decides nothing. -/
theorem asks_then_allows_outside :
    ¬ (writeGate.decision writeFile = .ask ∧
      writeGate.decision (writeFile.withArgument "path" (.string "/etc/passwd")) = .allow) := by
  rw [asks_then_allows_iff writeGate writeFile "path" _ (by decide) (by rfl) (by rfl)]
  rintro ⟨-, -, -, -, -, p, hp, -, hin⟩
  obtain rfl := Option.some.inj hp
  exact absurd hin (by decide)

/-- **The name of the file** is the further argument. -/
theorem asks_then_allows_writeFile : ¬ ∀ (g : Gate) (call : ToolCall) (key : String) (value : Json),
    g.policy.mode ≠ .yolo → call.args.isObject = true → call.args.get? key = none →
      g.decision call = .ask → g.decision (call.withArgument key value) ≠ .allow := by
  intro h
  exact h writeGate writeFile "path" (.string "/workspace/notes.md") (by decide) (by rfl) (by rfl)
    (by decide +kernel) (by decide +kernel)

end Gate

end ApexOS.Agentd
