import ApexOS.Agentd.Policy
import Mathlib.Data.List.Nodup
import Mathlib.Data.List.Perm.Basic

/-!
# The order of the rules

The rules of `PolicyEngine` are a hash map. An exact rule is looked up, so it does not matter where
it stands. Of the wildcards that match a tool the first in the order of iteration decides, and that
order is another in each process.

## Main results

* `PolicyEngine.checkFor_order_iff`: the calls whose decision the order does not change
* `PolicyEngine.checkFor_order_overlap`: two wildcards that decide alike
* `PolicyEngine.not_checkFor_order`: two that do not
-/

namespace ApexOS.Agentd.PolicyEngine

variable {rules rules' : List (String × Rule)} {tool : String} {rule : Rule}

/-- An exact rule is found wherever it stands. -/
theorem lookup_of_mem (hkeys : (rules.map Prod.fst).Nodup) (hmem : (tool, rule) ∈ rules) :
    rules.lookup tool = some rule := by
  induction rules with
  | nil => cases hmem
  | cons r rules ih =>
    obtain ⟨name, first⟩ := r
    rw [List.map_cons, List.nodup_cons] at hkeys
    obtain heq | hmem := List.mem_cons.mp hmem
    · obtain ⟨rfl, rfl⟩ := Prod.mk.inj heq
      exact List.lookup_cons_self
    · have hne : tool ≠ name := fun h =>
        hkeys.1 (List.mem_map.mpr ⟨(tool, rule), hmem, h⟩)
      rw [List.lookup_cons, beq_false_of_ne hne]
      exact ih hkeys.2 hmem

theorem lookup_of_not_mem (hnone : ∀ rule, (tool, rule) ∉ rules) : rules.lookup tool = none := by
  rw [List.lookup_eq_none_iff]
  intro r hr
  exact bne_iff_ne.mpr fun h => hnone r.2 (h ▸ hr)

/-- **An exact rule wins** over any wildcard. -/
theorem findRule_of_mem {mode : PolicyMode} (hkeys : (rules.map Prod.fst).Nodup)
    (hmem : (tool, rule) ∈ rules) : findRule ⟨mode, rules⟩ tool = some rule := by
  rw [findRule, lookup_of_mem hkeys hmem]
  rfl

/-- Without one it is the first wildcard. -/
theorem findRule_of_not_mem {mode : PolicyMode} (hnone : ∀ rule, (tool, rule) ∉ rules) :
    findRule ⟨mode, rules⟩ tool =
      (rules.find? fun r => matchesWildcard r.1 tool).map Prod.snd := by
  rw [findRule, lookup_of_not_mem hnone]
  rfl

/-- The rule that decides is one of those that match. -/
theorem findRule_cases (mode : PolicyMode) (hnone : ∀ rule, (tool, rule) ∉ rules) :
    (findRule ⟨mode, rules⟩ tool = none ∧ ∀ r ∈ rules, matchesWildcard r.1 tool = false) ∨
      ∃ r ∈ rules, matchesWildcard r.1 tool = true ∧
        findRule ⟨mode, rules⟩ tool = some r.2 := by
  rw [findRule_of_not_mem hnone]
  cases hfind : rules.find? fun r => matchesWildcard r.1 tool with
  | none =>
    exact .inl ⟨rfl, fun r hr => Bool.eq_false_iff.mpr (List.find?_eq_none.mp hfind r hr)⟩
  | some r =>
    have hmatch : matchesWildcard r.1 tool = true :=
      List.find?_some (p := fun x : String × Rule => matchesWildcard x.1 tool) hfind
    exact .inr ⟨r, List.mem_of_find?_eq_some hfind, hmatch, rfl⟩

/-- A matching wildcard can stand first. -/
theorem exists_perm_findRule (mode : PolicyMode) (hnone : ∀ rule, (tool, rule) ∉ rules)
    {r : String × Rule} (hr : r ∈ rules) (hmatch : matchesWildcard r.1 tool = true) :
    ∃ rules', rules'.Perm rules ∧ findRule ⟨mode, rules'⟩ tool = some r.2 := by
  have hperm : (r :: rules.erase r).Perm rules := (List.perm_cons_erase hr).symm
  refine ⟨r :: rules.erase r, hperm, ?_⟩
  rw [findRule_of_not_mem fun rule hmem => hnone rule (hperm.mem_iff.mp hmem),
    List.find?_cons_of_pos (p := fun x : String × Rule => matchesWildcard x.1 tool) hmatch]
  rfl

/-- Where the matching wildcards decide alike, their order does not matter. -/
theorem applyRule_findRule_of_perm {mode : PolicyMode} {inWorkspace : String → Bool}
    {path : Option String} (hnone : ∀ rule, (tool, rule) ∉ rules)
    (halike : ∀ r ∈ rules, ∀ r' ∈ rules, matchesWildcard r.1 tool = true →
      matchesWildcard r'.1 tool = true →
      applyRule inWorkspace (some r.2) path = applyRule inWorkspace (some r'.2) path)
    {rules' : List (String × Rule)} (hperm : rules'.Perm rules) :
    applyRule inWorkspace (findRule ⟨mode, rules'⟩ tool) path =
      applyRule inWorkspace (findRule ⟨mode, rules⟩ tool) path := by
  have hnone' : ∀ rule, (tool, rule) ∉ rules' := fun rule hmem =>
    hnone rule (hperm.mem_iff.mp hmem)
  obtain ⟨hfind, hno⟩ | ⟨r, hr, hmatch, hfind⟩ := findRule_cases mode hnone <;>
    obtain ⟨hfind', hno'⟩ | ⟨r', hr', hmatch', hfind'⟩ :=
      findRule_cases mode hnone' <;> rw [hfind, hfind']
  · exact absurd hmatch' (by simp [hno r' (hperm.mem_iff.mp hr')])
  · exact absurd hmatch (by simp [hno' r (hperm.mem_iff.mpr hr)])
  · exact halike r' (hperm.mem_iff.mp hr') r hr hmatch' hmatch

section

variable (config : PolicyConfig) (inWorkspace : String → Bool) (tool : String)
  (plugin path : Option String)

/-- The decision is the same in every order of the rules, and an exact rule makes it alone. -/
structure OrderFree : Prop where
  same : ∀ rules', rules'.Perm config.rules →
    checkFor { config with rules := rules' } inWorkspace tool plugin path
      = checkFor config inWorkspace tool plugin path
  exact : ∀ rule, (tool, rule) ∈ config.rules → ∀ rules', rules'.Perm config.rules →
    findRule { config with rules := rules' } tool = some rule

/-- The rules are not asked, one of them is exact, or the wildcards that match decide alike. -/
def Settled : Prop :=
  config.mode = .yolo ∨ ToolClaim.stolenAllowlist tool plugin = true ∨
    (∃ rule, (tool, rule) ∈ config.rules) ∨
    ∀ r ∈ config.rules, ∀ r' ∈ config.rules, matchesWildcard r.1 tool = true →
      matchesWildcard r'.1 tool = true →
      applyRule inWorkspace (some r.2) path = applyRule inWorkspace (some r'.2) path

end

/-- **The order of the rules** does not matter exactly where the matching wildcards agree. -/
theorem checkFor_order_iff (config : PolicyConfig) (hkeys : (config.rules.map Prod.fst).Nodup)
    (inWorkspace : String → Bool) (tool : String) (plugin path : Option String) :
    OrderFree config inWorkspace tool plugin path ↔
      Settled config inWorkspace tool plugin path := by
  obtain ⟨mode, rules⟩ := config
  have hexact : ∀ rule, (tool, rule) ∈ rules → ∀ rules', rules'.Perm rules →
      findRule ⟨mode, rules'⟩ tool = some rule := fun rule hmem rules' hperm =>
    findRule_of_mem ((hperm.map Prod.fst).nodup_iff.mpr hkeys) (hperm.mem_iff.mpr hmem)
  constructor
  · intro h
    by_cases hmode : mode = .yolo
    · exact .inl hmode
    by_cases hstolen : ToolClaim.stolenAllowlist tool plugin = true
    · exact .inr (.inl hstolen)
    by_cases hrule : ∃ rule, (tool, rule) ∈ rules
    · exact .inr (.inr (.inl hrule))
    refine .inr (.inr (.inr fun r hr r' hr' hmatch hmatch' => ?_))
    have hnone : ∀ rule, (tool, rule) ∉ rules := fun rule hmem => hrule ⟨rule, hmem⟩
    have hdecides : ∀ x ∈ rules, matchesWildcard x.1 tool = true →
        applyRule inWorkspace (some x.2) path
          = checkFor ⟨mode, rules⟩ inWorkspace tool plugin path := by
      intro x hx hxmatch
      obtain ⟨rules', hperm, hfind⟩ := exists_perm_findRule mode hnone hx hxmatch
      rw [← h.same rules' hperm, checkFor, if_neg hmode, if_neg hstolen, hfind]
    exact (hdecides r hr hmatch).trans (hdecides r' hr' hmatch').symm
  · intro h
    refine ⟨fun rules' hperm => ?_, hexact⟩
    rw [checkFor, checkFor]
    split_ifs with hmode hstolen
    · rfl
    · rfl
    · obtain hyolo | htaken | ⟨rule, hmem⟩ | halike := h
      · exact absurd hyolo hmode
      · exact absurd htaken hstolen
      · rw [hexact rule hmem rules' hperm, hexact rule hmem rules (.refl _)]
      · by_cases hrule : ∃ rule, (tool, rule) ∈ rules
        · obtain ⟨rule, hmem⟩ := hrule
          rw [hexact rule hmem rules' hperm, hexact rule hmem rules (.refl _)]
        · exact applyRule_findRule_of_perm (fun rule hmem => hrule ⟨rule, hmem⟩) halike hperm

theorem checkFor_order_overlap : OrderFree
    ⟨.suggest, [("a.*", .allow), ("a.b.*", .allow)]⟩ (fun _ => false) "a.b.c" none none :=
  (checkFor_order_iff _ (by decide) _ _ _ _).mpr <| .inr <| .inr <| .inr fun r hr r' hr' _ _ => by
    simp only [List.mem_cons, List.not_mem_nil, or_false] at hr hr'
    obtain rfl | rfl := hr <;> obtain rfl | rfl := hr' <;> rfl

/-- Of two wildcards, one for the family and one for a part of it, the hash decides. -/
theorem not_checkFor_order : ¬ ∀ (config : PolicyConfig), (config.rules.map Prod.fst).Nodup →
    ∀ (inWorkspace : String → Bool) (tool : String) (plugin path : Option String),
      OrderFree config inWorkspace tool plugin path := by
  intro h
  have hsame := (h ⟨.suggest, [("a.*", .allow), ("a.b.*", .ask)]⟩ (by decide) (fun _ => false)
    "a.b.c" none none).same [("a.b.*", .ask), ("a.*", .allow)] (by decide)
  revert hsame
  decide

end ApexOS.Agentd.PolicyEngine
