import ApexOS.Cerebro.Reading
import ApexOS.Lib.Nearest
import Mathlib.Data.List.Infix
import Mathlib.Data.String.Basic
import Mathlib.Order.OrderDual

/-!
# Looking up by tag

`find_by_tags` and `find_by_any_tag` of `cerebro/crates/cerebro/src/storage/sqlite.rs`. A memory's
tags are kept as the text of a JSON array, and a tag is looked for in that text, between quotes,
with `LIKE`. So it is a matter of how the array is written, and of letter case.

## Main definitions

* `tagsJson`: the text of a list of tags
* `Occurs`: a tag in quotes occurs in a text, in either case
* `Store.taggedRows`, `Store.candidateRows`: the rows that the statements answer with
* `ExactTags`, `ExactAny`: what they are to answer with

## Main results

* `like_tagPattern_iff`: what `LIKE` finds
* `occurs_tagsJson_iff`: among plain tags, it is the tag in either case
* `tagLookup_exact_iff`: when both statements are exact
-/

namespace ApexOS.Cerebro.Reading

/-! ### The text of an array -/

/-- A digit of a `\u` escape. -/
def hexDigit (n : ℕ) : Char := if n < 10 then Char.ofNat (48 + n) else Char.ofNat (87 + n)

/-- How `serde_json` writes a character of a string. -/
def escapeChar (c : Char) : List Char :=
  if c = '"' then ['\\', '"']
  else if c = '\\' then ['\\', '\\']
  else if c.toNat = 8 then ['\\', 'b']
  else if c.toNat = 9 then ['\\', 't']
  else if c.toNat = 10 then ['\\', 'n']
  else if c.toNat = 12 then ['\\', 'f']
  else if c.toNat = 13 then ['\\', 'r']
  else if c.toNat < 32 then ['\\', 'u', '0', '0', hexDigit (c.toNat / 16), hexDigit (c.toNat % 16)]
  else [c]

/-- A text between quotes. -/
def quoted (cs : List Char) : List Char := '"' :: (cs ++ ['"'])

/-- `serde_json::to_string`, of a list of strings. -/
def tagsJson (tags : List String) : List Char :=
  '[' :: (List.intercalate [','] (tags.map fun tag => quoted (tag.toList.flatMap escapeChar)) ++
    [']'])

/-! ### What `LIKE` finds -/

/-- The letters of the basic alphabet in lower case. -/
def fold (cs : List Char) : List Char := cs.map Char.toLower

/-- A text occurs between quotes in another, in either case. -/
def Occurs (cs text : List Char) : Prop := fold (quoted cs) <:+: fold text

/-- The characters that `find_by_any_tag` leaves out of a tag. -/
def bare (tag : String) : List Char := tag.toList.filter fun c => c ∉ ['"', '%', '_']

/-- The pattern of `find_by_any_tag`, which has no escapes. -/
def anyTagPattern (tag : String) : List LikeToken :=
  ('%' :: (quoted (bare tag) ++ ['%'])).map fun c =>
    if c = '%' then .any else if c = '_' then .one else .lit c

theorem like_lits_any (cs s : List Char) :
    like (cs.map LikeToken.lit ++ [.any]) s = true ↔ fold cs <+: fold s := by
  induction cs generalizing s with
  | nil =>
    have hnil : ([] : List Char) ∈ s.tails := (List.mem_tails _ _).mpr (List.nil_suffix)
    simp only [List.map_nil, List.nil_append, like, List.any_eq_true, fold, List.nil_prefix,
      iff_true]
    exact ⟨[], hnil, rfl⟩
  | cons c cs ih =>
    cases s with
    | nil => simp [like, fold]
    | cons d s =>
      have hfold : ∀ (e : Char) (l : List Char), fold (e :: l) = e.toLower :: fold l :=
        fun _ _ => rfl
      rw [List.map_cons, List.cons_append, like, Bool.and_eq_true, ih, beq_iff_eq, hfold, hfold,
        List.cons_prefix_cons]

/-- A text between two wildcards is found where it occurs. -/
theorem like_any_lits_any (cs s : List Char) :
    like (.any :: (cs.map LikeToken.lit ++ [.any])) s = true ↔ fold cs <:+: fold s := by
  rw [like, List.any_eq_true, List.infix_iff_prefix_suffix]
  constructor
  · rintro ⟨t, ht, hlike⟩
    exact ⟨fold t, (like_lits_any cs t).mp hlike, ((List.mem_tails _ _).mp ht).map _⟩
  · rintro ⟨t, hprefix, hsuffix⟩
    obtain ⟨pre, hpre⟩ := hsuffix
    obtain ⟨a, b, rfl, rfl, rfl⟩ := List.map_eq_append_iff.mp hpre.symm
    exact ⟨b, (List.mem_tails _ _).mpr (List.suffix_append a b), (like_lits_any cs b).mpr hprefix⟩

theorem likeTokens_escaped (cs rest : List Char) :
    likeTokens (cs.flatMap (fun c =>
        if c = '\\' ∨ c = '%' ∨ c = '_' then ['\\', c] else [c]) ++ rest)
      = cs.map LikeToken.lit ++ likeTokens rest := by
  induction cs with
  | nil => rfl
  | cons c cs ih =>
    rw [List.flatMap_cons, List.append_assoc, List.map_cons, List.cons_append, ← ih]
    split
    · rfl
    · rename_i h
      simp only [not_or] at h
      rw [List.singleton_append, likeTokens]
      all_goals simp_all

/-- **What `find_by_tags` finds**: the tag between quotes. -/
theorem like_tagPattern_iff (tag : String) (text : List Char) :
    like (likeTokens (tagPattern tag)) text = true ↔ Occurs tag.toList text := by
  have htokens : likeTokens (tagPattern tag)
      = .any :: ((quoted tag.toList).map LikeToken.lit ++ [.any]) := by
    rw [tagPattern, List.cons_append, List.cons_append, likeTokens, likeTokens, likeTokens_escaped]
    all_goals simp [quoted, likeTokens]
  rw [htokens, like_any_lits_any, Occurs]

/-- **What `find_by_any_tag` finds**: what it leaves of the tag, between quotes. -/
theorem like_anyTagPattern_iff (tag : String) (text : List Char) :
    like (anyTagPattern tag) text = true ↔ Occurs (bare tag) text := by
  have hlit : (bare tag).map (fun c => if c = '%' then LikeToken.any else if c = '_' then .one
      else .lit c) = (bare tag).map LikeToken.lit := by
    refine List.map_congr_left fun c hc => ?_
    have hne : c ≠ '%' ∧ c ≠ '_' := by
      have h := (List.mem_filter.mp hc).2
      simp at h
      exact h.2
    rw [if_neg hne.1, if_neg hne.2]
  have htokens : anyTagPattern tag
      = .any :: ((quoted (bare tag)).map LikeToken.lit ++ [.any]) := by
    simp [anyTagPattern, quoted, ← hlit]
  rw [htokens, like_any_lits_any, Occurs]

/-! ### Plain tags -/

/-- A text that JSON writes as it is. -/
def Plain (cs : List Char) : Prop := ∀ c ∈ cs, c ≠ '"' ∧ c ≠ '\\' ∧ 32 ≤ c.toNat

theorem escapeChar_of_plain {cs : List Char} (h : Plain cs) : cs.flatMap escapeChar = cs := by
  induction cs with
  | nil => rfl
  | cons c cs ih =>
    obtain ⟨hquote, hback, hctl⟩ := h c List.mem_cons_self
    have hc : escapeChar c = [c] := by
      rw [escapeChar, if_neg hquote, if_neg hback, if_neg (by omega), if_neg (by omega),
        if_neg (by omega), if_neg (by omega), if_neg (by omega), if_neg (by omega)]
    rw [List.flatMap_cons, hc, ih fun d hd => h d (List.mem_cons_of_mem _ hd)]
    rfl

/-- What is no letter stays as it is. -/
theorem toLower_eq_iff {d : Char} (hd : d.toNat < 65) (c : Char) : c.toLower = d ↔ c = d := by
  delta Char.toLower
  split
  · rename_i h
    have hlow : 65 ≤ c.val.toNat := UInt32.le_iff_toNat_le.mp h.1
    have hhigh : c.val.toNat ≤ 90 := UInt32.le_iff_toNat_le.mp h.2
    refine iff_of_false (fun heq => ?_) fun heq => ?_
    · have hval : (c.val + 32).toNat = d.toNat := congrArg (fun e : Char => e.val.toNat) heq
      rw [UInt32.toNat_add] at hval
      have h32 : (32 : UInt32).toNat = 32 := rfl
      omega
    · rw [heq] at hlow
      exact absurd hlow (by simpa using hd)
  · rfl

/-- The first quote of a text is in what comes before another, or it is that one. -/
theorem first_quote {pre a x y : List Char} (ha : '"' ∉ a)
    (h : pre ++ '"' :: x = a ++ '"' :: y) :
    (pre = a ∧ x = y) ∨ ∃ pre', pre = a ++ '"' :: pre' ∧ pre' ++ '"' :: x = y := by
  obtain ⟨mid, rfl, hmid⟩ | ⟨mid, rfl, hmid⟩ := List.append_eq_append_iff.mp h
  · cases mid with
    | nil => exact .inl ⟨(List.append_nil _).symm, (List.cons.inj hmid).2⟩
    | cons c mid =>
      obtain ⟨rfl, -⟩ := List.cons.inj hmid
      exact absurd (List.mem_append_right _ List.mem_cons_self) ha
  · cases mid with
    | nil => exact .inl ⟨List.append_nil _, (List.cons.inj hmid).2.symm⟩
    | cons c mid =>
      obtain ⟨rfl, rfl⟩ := List.cons.inj hmid
      exact .inr ⟨mid, rfl, rfl⟩

/-- The texts of an array, up to its end. -/
def arrayBody (us : List (List Char)) : List Char := List.intercalate [','] (us.map quoted) ++ [']']

theorem arrayBody_cons (u : List Char) (us : List (List Char)) :
    arrayBody (u :: us) = '"' :: (u ++ '"' :: if us = [] then [']'] else ',' :: arrayBody us) := by
  cases us with
  | nil => simp [arrayBody, quoted, List.intercalate]
  | cons v us => simp [arrayBody, quoted, List.intercalate]

/-- Between the quotes of an array are its texts, and commas. -/
theorem quoted_infix_arrayBody {t : List Char} {us : List (List Char)} (ht : '"' ∉ t)
    (hcomma : t ≠ [',']) (hus : ∀ u ∈ us, '"' ∉ u) (lead : List Char) (hlead : '"' ∉ lead) :
    quoted t <:+: lead ++ arrayBody us ↔ t ∈ us := by
  induction us generalizing lead with
  | nil =>
    refine iff_of_false ?_ (List.not_mem_nil)
    intro h
    have hmem : '"' ∈ lead ++ arrayBody [] := h.subset List.mem_cons_self
    simp [arrayBody, hlead] at hmem
  | cons u us ih =>
    have hu := hus u List.mem_cons_self
    have hih := ih fun v hv => hus v (List.mem_cons_of_mem _ hv)
    rw [arrayBody_cons, List.mem_cons]
    constructor
    · rintro ⟨pre, post, heq⟩
      have hsplit : pre ++ '"' :: (t ++ '"' :: post) = lead ++ '"' :: (u ++ '"' ::
          if us = [] then [']'] else ',' :: arrayBody us) := by
        rw [← heq]
        simp [quoted]
      obtain ⟨-, hrest⟩ | ⟨pre', -, hrest⟩ := first_quote hlead hsplit
      · obtain ⟨rfl, -⟩ | ⟨mid, rfl, -⟩ := first_quote hu hrest
        · exact .inl rfl
        · exact absurd (List.mem_append_right _ List.mem_cons_self) ht
      · cases us with
        | nil =>
          obtain ⟨-, htail⟩ | ⟨pre'', -, htail⟩ := first_quote hu hrest
          all_goals
            rw [if_pos rfl] at htail
            have hmem : '"' ∈ [']'] := htail ▸ List.mem_append_right _ List.mem_cons_self
            simp at hmem
        | cons v us =>
          rw [if_neg (List.cons_ne_nil v us)] at hrest
          have hno : '"' ∉ [','] := by decide
          obtain ⟨-, htail⟩ | ⟨pre'', -, htail⟩ := first_quote hu hrest
          · rw [arrayBody_cons] at htail
            obtain ⟨htc, -⟩ | ⟨mid, htc, -⟩ := first_quote hno htail
            · exact absurd htc hcomma
            · exact absurd (htc ▸ List.mem_append_right _ List.mem_cons_self) ht
          · refine .inr ((hih [','] hno).mp ⟨pre'', post, ?_⟩)
            rw [List.singleton_append, ← htail]
            simp [quoted]
    · rintro (rfl | hmem)
      · exact ⟨lead, if us = [] then [']'] else ',' :: arrayBody us, by simp [quoted]⟩
      · have hne : us ≠ [] := List.ne_nil_of_mem hmem
        obtain ⟨pre, post, heq⟩ := (hih [','] (by decide)).mpr hmem
        refine ⟨lead ++ '"' :: (u ++ '"' :: pre), post, ?_⟩
        have htail : ',' :: arrayBody us = pre ++ quoted t ++ post := heq.symm
        rw [if_neg hne, htail]
        simp

theorem fold_append (cs ds : List Char) : fold (cs ++ ds) = fold cs ++ fold ds := List.map_append

theorem fold_quoted (cs : List Char) : fold (quoted cs) = quoted (fold cs) := by
  simp [fold, quoted]

theorem fold_arrayBody (us : List (List Char)) : fold (arrayBody us) = arrayBody (us.map fold) := by
  induction us with
  | nil => rfl
  | cons u us ih =>
    rw [List.map_cons, arrayBody_cons, arrayBody_cons]
    cases us with
    | nil => simp [fold]
    | cons v us =>
      rw [if_neg (List.cons_ne_nil v us), if_neg (by simp), ← ih]
      simp [fold]

theorem quote_not_mem_fold {cs : List Char} (h : Plain cs) : '"' ∉ fold cs := by
  intro hmem
  obtain ⟨c, hc, hlower⟩ := List.mem_map.mp hmem
  exact (h c hc).1 ((toLower_eq_iff (by decide) c).mp hlower)

/-- **Among plain tags** a tag occurs where it is one of them, in either case; a comma is not plain
in this sense. -/
theorem occurs_tagsJson_iff {tag : String} {us : List String} (htag : Plain tag.toList)
    (hcomma : tag ≠ ",") (hus : ∀ u ∈ us, Plain u.toList) :
    Occurs tag.toList (tagsJson us) ↔ ∃ u ∈ us, fold u.toList = fold tag.toList := by
  have hjson : tagsJson us = ['['] ++ arrayBody (us.map String.toList) := by
    have hmap : us.map (fun u => quoted (u.toList.flatMap escapeChar))
        = (us.map String.toList).map quoted := by
      rw [List.map_map]
      exact List.map_congr_left fun u hu => by rw [escapeChar_of_plain (hus u hu)]; rfl
    rw [tagsJson, hmap, arrayBody]
    rfl
  have hne : fold tag.toList ≠ [','] := by
    intro h
    obtain ⟨c, hc, hlower⟩ := List.map_eq_singleton_iff.mp h
    rw [(toLower_eq_iff (by decide) c).mp hlower] at hc
    exact hcomma (String.toList_inj.mp hc)
  have hfold : ∀ u ∈ (us.map String.toList).map fold, '"' ∉ u := by
    intro u hu
    obtain ⟨v, hv, rfl⟩ := List.mem_map.mp hu
    obtain ⟨w, hw, rfl⟩ := List.mem_map.mp hv
    exact quote_not_mem_fold (hus w hw)
  rw [Occurs, hjson, fold_append, fold_arrayBody, fold_quoted,
    quoted_infix_arrayBody (quote_not_mem_fold htag) hne hfold _ (by decide)]
  simp

/-! ### The statements -/

namespace Store

variable {γ : Type*} (L : Libs γ) (s : Store γ)

/-- The rows that `find_by_tags` reads. -/
def taggedRows (scope : VisibilityScope) (tags : List String) (limit : UInt64) :
    List StoredMemory :=
  if tags.isEmpty then []
  else
    let rows := s.select L scope fun row => row.live &&
      tags.all fun tag => like (likeTokens (tagPattern tag)) row.raw.tags.toList
    limited limit (rows.mergeSort fun x y => !decide (x.raw.createdAt < y.raw.createdAt))

theorem findByTags_eq_nodes (scope : VisibilityScope) (tags : List String) (limit : UInt64) :
    s.findByTags L scope tags limit = nodes L (s.taggedRows L scope tags limit) := by
  rw [findByTags, taggedRows]
  split <;> rfl

/-- The rows that `find_by_any_tag` reads. The limit is bound as a text, which is no whole number of
the database from `2 ^ 63` on. -/
def candidateRows (exclude : MemoryId) (tags : List String) (scope : VisibilityScope)
    (limit : UInt64) : Except String (List StoredMemory) :=
  if tags.isEmpty then .ok []
  else if limit.toNat < 2 ^ 63 then
    .ok ((s.select L scope fun row => row.raw.id != exclude && row.live &&
      tags.any fun tag => like (anyTagPattern tag) row.raw.tags.toList).take limit.toNat)
  else .error "datatype mismatch"

/-- `find_by_any_tag`. -/
def findByAnyTag (exclude : MemoryId) (tags : List String) (scope : VisibilityScope)
    (limit : UInt64) : Except String (List (MemoryId × List String)) :=
  (s.candidateRows L exclude tags scope limit).map fun rows =>
    rows.map fun row => (row.raw.id, (L.codec.strings row.raw.tags).toOption.getD [])

/-- The live memories that a scope lets through. -/
def liveRows (scope : VisibilityScope) : List StoredMemory :=
  s.memories.filter fun row => admits scope row && row.live

variable (tagsOf : StoredMemory → List String)

/-- **All the tags**: the newest memories with every tag. -/
def ExactTags (scope : VisibilityScope) (tags : List String) : Prop :=
  ∀ limit : UInt64, IsNearest (fun row => OrderDual.toDual row.raw.createdAt) limit.toNat
    ((s.liveRows scope).filter fun row => decide (∀ tag ∈ tags, tag ∈ tagsOf row))
    (s.taggedRows L scope tags limit)

/-- **Any of the tags**: as many as are asked for, of the other memories with one of them. -/
def ExactAny (exclude : MemoryId) (scope : VisibilityScope) (tags : List String) : Prop :=
  ∀ limit : UInt64, limit.toNat < 2 ^ 63 → ∃ rows,
    s.candidateRows L exclude tags scope limit = .ok rows ∧
    (∃ out, (rows ++ out).Perm ((s.liveRows scope).filter fun row =>
      decide (row.raw.id ≠ exclude ∧ ∃ tag ∈ tags, tag ∈ tagsOf row))) ∧
    rows.length = min limit.toNat ((s.liveRows scope).filter fun row =>
      decide (row.raw.id ≠ exclude ∧ ∃ tag ∈ tags, tag ∈ tagsOf row)).length

/-! ### When they are exact -/

variable {L s tagsOf} {scope : VisibilityScope} {tags : List String} {exclude : MemoryId}

/-- Two tests that let the same rows through agree on every row. -/
theorem agree_of_perm {α : Type*} {p q : α → Bool} {l : List α}
    (h : (l.filter p).Perm (l.filter q)) : ∀ a ∈ l, (p a = true ↔ q a = true) := by
  intro a ha
  have hmem := h.mem_iff (a := a)
  simpa [List.mem_filter, ha] using hmem

theorem select_perm (L : Libs γ) (s : Store γ) (scope : VisibilityScope)
    (p : StoredMemory → Bool) :
    (s.select L scope fun row => row.live && p row).Perm ((s.liveRows scope).filter p) := by
  have hfilter : (s.liveRows scope).filter p
      = s.memories.filter fun row => admits scope row && (row.live && p row) := by
    rw [liveRows, List.filter_filter]
    refine List.filter_congr fun row _ => ?_
    cases admits scope row <;> cases row.live <;> cases p row <;> rfl
  rw [hfilter, select]
  exact L.engine.scan_perm _

/-- The rows between which the limit is drawn. -/
theorem taggedRows_perm (L : Libs γ) (s : Store γ) (scope : VisibilityScope) (htags : tags ≠ [])
    (limit : UInt64) : ∃ sorted : List StoredMemory,
      sorted.Perm ((s.liveRows scope).filter fun row =>
        tags.all fun tag => like (likeTokens (tagPattern tag)) row.raw.tags.toList) ∧
      (sorted.Pairwise fun x y =>
        OrderDual.toDual x.raw.createdAt ≤ OrderDual.toDual y.raw.createdAt) ∧
      s.taggedRows L scope tags limit = limited limit sorted := by
  have hne : ¬ tags.isEmpty = true := by simpa using htags
  refine ⟨_, (List.mergeSort_perm _ _).trans (select_perm L s scope _), ?_, by
    rw [taggedRows, if_neg hne]⟩
  refine (List.pairwise_mergeSort ?_ ?_ _).imp ?_
  · intro x y z hxy hyz
    simp only [Bool.not_eq_true', decide_eq_false_iff_not, not_lt] at hxy hyz ⊢
    exact hyz.trans hxy
  · intro x y
    rw [Bool.or_eq_true, Bool.not_eq_true', Bool.not_eq_true', decide_eq_false_iff_not,
      decide_eq_false_iff_not, not_lt, not_lt]
    exact le_total y.raw.createdAt x.raw.createdAt
  · intro x y hxy
    rw [Bool.not_eq_true', decide_eq_false_iff_not, not_lt] at hxy
    exact hxy

/-- The rows of which the limit takes the first. -/
theorem candidateRows_perm (L : Libs γ) (s : Store γ) (exclude : MemoryId) (scope : VisibilityScope)
    (htags : tags ≠ []) (limit : UInt64) (hlimit : limit.toNat < 2 ^ 63) :
    ∃ rows : List StoredMemory,
      rows.Perm ((s.liveRows scope).filter fun row => row.raw.id != exclude &&
        tags.any fun tag => like (anyTagPattern tag) row.raw.tags.toList) ∧
      s.candidateRows L exclude tags scope limit = .ok (rows.take limit.toNat) := by
  have hne : ¬ tags.isEmpty = true := by simpa using htags
  have hcomm : (fun row : StoredMemory => row.raw.id != exclude && row.live &&
      tags.any fun tag => like (anyTagPattern tag) row.raw.tags.toList)
      = fun row => row.live && (row.raw.id != exclude &&
        tags.any fun tag => like (anyTagPattern tag) row.raw.tags.toList) :=
    funext fun row => by rw [Bool.and_comm (row.raw.id != exclude), Bool.and_assoc]
  refine ⟨_, select_perm L s scope _, ?_⟩
  rw [candidateRows, if_neg hne, if_pos hlimit, hcomm]

theorem exactTags_iff (htags : tags ≠ []) (hsize : s.memories.length < 2 ^ 63)
    (htext : ∀ row ∈ s.memories, row.raw.tags = String.ofList (tagsJson (tagsOf row))) :
    ExactTags L s tagsOf scope tags ↔ ∀ row ∈ s.liveRows scope,
      ((∀ tag ∈ tags, Occurs tag.toList (tagsJson (tagsOf row))) ↔
        ∀ tag ∈ tags, tag ∈ tagsOf row) := by
  have hoccurs : ∀ row ∈ s.liveRows scope,
      ((tags.all fun tag => like (likeTokens (tagPattern tag)) row.raw.tags.toList) = true ↔
        ∀ tag ∈ tags, Occurs tag.toList (tagsJson (tagsOf row))) := by
    intro row hrow
    rw [List.all_eq_true, htext row (List.mem_filter.mp hrow).1, String.toList_ofList]
    exact forall₂_congr fun tag _ => like_tagPattern_iff tag _
  have hlive : (s.liveRows scope).length < 2 ^ 63 :=
    (List.length_filter_le _ _).trans_lt hsize
  constructor
  · intro h row hrow
    obtain ⟨sorted, hperm, -, heq⟩ := taggedRows_perm L s scope htags (UInt64.ofNat (2 ^ 63))
    have hexact := h (UInt64.ofNat (2 ^ 63))
    rw [heq, limited, if_neg (by decide)] at hexact
    have hlimit : (UInt64.ofNat (2 ^ 63)).toNat = 2 ^ 63 := rfl
    have hall := hexact.perm_of_le ((List.length_filter_le _ _).trans (by omega))
    rw [← hoccurs row hrow, agree_of_perm (hperm.symm.trans hall) row hrow, decide_eq_true_iff]
  · intro h limit
    obtain ⟨sorted, hperm, hsorted, heq⟩ := taggedRows_perm L s scope htags limit
    have hfilter : (s.liveRows scope).filter (fun row =>
        tags.all fun tag => like (likeTokens (tagPattern tag)) row.raw.tags.toList)
        = (s.liveRows scope).filter fun row => decide (∀ tag ∈ tags, tag ∈ tagsOf row) := by
      refine List.filter_congr fun row hrow => ?_
      rw [Bool.eq_iff_iff, hoccurs row hrow, h row hrow, decide_eq_true_iff]
    rw [hfilter] at hperm
    rw [heq, limited]
    split
    · exact isNearest_take hperm hsorted
    · have htake : sorted = sorted.take limit.toNat := by
        refine (List.take_of_length_le ?_).symm
        have hle := (s.liveRows scope).length_filter_le
          fun row => decide (∀ tag ∈ tags, tag ∈ tagsOf row)
        have := hperm.length_eq
        omega
      rw [htake]
      exact isNearest_take hperm hsorted

theorem exactAny_iff (htags : tags ≠ []) (hsize : s.memories.length < 2 ^ 63)
    (htext : ∀ row ∈ s.memories, row.raw.tags = String.ofList (tagsJson (tagsOf row))) :
    ExactAny L s tagsOf exclude scope tags ↔ ∀ row ∈ s.liveRows scope, row.raw.id ≠ exclude →
      ((∃ tag ∈ tags, Occurs (bare tag) (tagsJson (tagsOf row))) ↔
        ∃ tag ∈ tags, tag ∈ tagsOf row) := by
  have hoccurs : ∀ row ∈ s.liveRows scope, ((row.raw.id != exclude &&
      tags.any fun tag => like (anyTagPattern tag) row.raw.tags.toList) = true ↔
        row.raw.id ≠ exclude ∧ ∃ tag ∈ tags, Occurs (bare tag) (tagsJson (tagsOf row))) := by
    intro row hrow
    rw [Bool.and_eq_true, bne_iff_ne, List.any_eq_true, htext row (List.mem_filter.mp hrow).1,
      String.toList_ofList]
    exact and_congr_right fun _ => exists_congr fun tag =>
      and_congr_right fun _ => like_anyTagPattern_iff tag _
  have hlive : (s.liveRows scope).length < 2 ^ 63 :=
    (List.length_filter_le _ _).trans_lt hsize
  constructor
  · intro h row hrow hid
    have hlimit : (UInt64.ofNat (2 ^ 63 - 1)).toNat = 2 ^ 63 - 1 := rfl
    obtain ⟨rows, hperm, heq⟩ := candidateRows_perm L s exclude scope htags
      (UInt64.ofNat (2 ^ 63 - 1)) (by omega)
    obtain ⟨answer, hanswer, ⟨out, hout⟩, hlength⟩ :=
      h (UInt64.ofNat (2 ^ 63 - 1)) (by omega)
    rw [heq] at hanswer
    obtain rfl := Except.ok.inj hanswer
    have hle := (s.liveRows scope).length_filter_le fun row =>
      decide (row.raw.id ≠ exclude ∧ ∃ tag ∈ tags, tag ∈ tagsOf row)
    have hrows : rows.length < 2 ^ 63 := by
      rw [hperm.length_eq]
      exact (List.length_filter_le _ _).trans_lt hlive
    have hall := ((List.sublist_append_left _ out).subperm.trans hout.subperm).perm_of_length_le
      (by omega)
    rw [List.take_of_length_le (by omega)] at hall
    have hagree := agree_of_perm (hperm.symm.trans hall) row hrow
    rw [hoccurs row hrow, decide_eq_true_iff] at hagree
    simpa [hid] using hagree
  · intro h limit hlimit
    obtain ⟨rows, hperm, heq⟩ := candidateRows_perm L s exclude scope htags limit hlimit
    have hfilter : (s.liveRows scope).filter (fun row => row.raw.id != exclude &&
        tags.any fun tag => like (anyTagPattern tag) row.raw.tags.toList)
        = (s.liveRows scope).filter fun row =>
          decide (row.raw.id ≠ exclude ∧ ∃ tag ∈ tags, tag ∈ tagsOf row) := by
      refine List.filter_congr fun row hrow => ?_
      rw [Bool.eq_iff_iff, hoccurs row hrow, decide_eq_true_iff]
      exact and_congr_right fun hid => h row hrow hid
    rw [hfilter] at hperm
    refine ⟨_, heq, ⟨rows.drop limit.toNat, ?_⟩, ?_⟩
    · rw [List.take_append_drop]
      exact hperm
    · rw [List.length_take, hperm.length_eq]

/-- One shared memory with one tag. -/
def oneTagged (L : Libs γ) (tag : String) : Store γ where
  memories := [
    { raw :=
        { id := "m1", content := "", memoryType := "semantic", layer := "working", salience := 0,
          tags := String.ofList (tagsJson [tag]), agentId := none, visibility := "shared",
          threadId := none, emotionalValence := none, emotionalIntensity := 0, createdAt := "",
          updatedAt := "", accessCount := 0, accessTimes := "[]", fsrsStability := 1,
          fsrsDifficulty := 5, fsrsLastReview := none, metadata := "null" }
      deletedAt := none }]
  versions := []
  agents := []
  episodes := []
  steps := []
  graph := GraphStore.new L.graph

theorem text_oneTagged (L : Libs γ) (tag : String) : ∀ row ∈ (oneTagged L tag).memories,
    row.raw.tags = String.ofList (tagsJson [tag]) := by
  intro row hrow
  rw [List.mem_singleton.mp hrow]

end Store

end ApexOS.Cerebro.Reading
