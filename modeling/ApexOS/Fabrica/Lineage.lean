import ApexOS.Fabrica.Loop
import ApexOS.Fabrica.Trees
import ApexOS.Lib.Utf8
import Mathlib.Data.List.Infix

/-!
# The lineage of orphans

A tree is read back from the files of its cells, and any of them may be lost. `reparent_orphans`
notes, for a cell whose parent is gone, the nearest ancestor that is left; the address itself stays,
so `next_child_ordinal` must not give it out again.

Every statement is about lookups, so that the order in which a hash map or a directory is listed
is nowhere in it.

## Main definitions

* `Nearest`: the longest proper prefix of an address that has a record
* `readTree`, `loadTree`: a tree from its files
* `Reparented`, `SoundLineage`: what the results say

## Main results

* `get?_reparentOrphans`: each record is settled by itself
* `nearest_of_nearestLiving`: the walk up stops at the longest prefix
* `not_isAncestorOf_next`: the next child's address is over nothing that is left
* `loadTree_lineage`: all of it together
-/

namespace ApexOS.Fabrica

variable {t t' : Tree} {a b p : Addr} {c : CellRecord}

/-! ### One record -/

/-- The walk up from a parent that is gone. -/
def nearestLiving (living : Addr → Bool) (a : Addr) : Option Addr :=
  (a.ancestors.drop 1).find? living

/-- What `reparent_orphans` makes of one record. -/
def settled (living : Addr → Bool) (a : Addr) (c : CellRecord) : CellRecord :=
  match a.parent with
  | none => c
  | some parent =>
    if living parent then c
    else match nearestLiving living a with
      | none => c
      | some anc => { c with reparentedTo := some anc }

theorem settled_settled (living : Addr → Bool) (a : Addr) (c : CellRecord) :
    settled living a (settled living a c) = settled living a c := by
  unfold settled
  cases a.parent with
  | none => rfl
  | some parent =>
    dsimp only
    split
    · rfl
    · cases nearestLiving living a <;> rfl

/-- One turn of the loop. -/
def reparentOne (t : Tree) (addr : Addr) : Tree :=
  match addr.parent with
  | none => t
  | some parent =>
    if t.contains parent then t
    else match nearestLiving t.contains addr with
      | none => t
      | some living => t.modify addr fun c => { c with reparentedTo := some living }

theorem get?_reparentOne :
    (reparentOne t a).get? b =
      if b = a then (t.get? b).map (settled t.contains b) else t.get? b := by
  have hkept (h : settled t.contains a = id) :
      t.get? b = if b = a then (t.get? b).map (settled t.contains b) else t.get? b := by
    split
    · rename_i hb
      rw [hb, h, Option.map_id, id]
    · rfl
  unfold reparentOne
  cases hparent : a.parent with
  | none => exact hkept (by funext c; rw [settled, hparent]; rfl)
  | some parent =>
    dsimp only
    split
    · rename_i hliving
      exact hkept (by funext c; simp [settled, hparent, hliving])
    · rename_i hgone
      cases hnear : nearestLiving t.contains a with
      | none => exact hkept (by funext c; simp [settled, hparent, hgone, hnear])
      | some living =>
        rw [Table.get?_modify]
        split
        · rename_i hb
          subst hb
          refine congrArg (Option.map · _) (funext fun c => ?_)
          simp [settled, hparent, hgone, hnear]
        · rfl

theorem contains_reparentOne : (reparentOne t a).contains = t.contains := by
  funext b
  rw [Table.contains, Table.contains, get?_reparentOne]
  split
  · rw [Option.isSome_map]
  · rfl

/-! ### The whole loop -/

/-- What the loop has done: the records it came to are settled, and no record came or went. -/
theorem get?_foldl_reparentOne (as : List Addr) : ((as.foldl reparentOne t).get? b =
      if b ∈ as then (t.get? b).map (settled t.contains b) else t.get? b) ∧
    (as.foldl reparentOne t).contains = t.contains := by
  induction as generalizing t with
  | nil => exact ⟨rfl, rfl⟩
  | cons a as ih =>
    obtain ⟨hget, hcontains⟩ := ih (t := reparentOne t a)
    rw [contains_reparentOne] at hget hcontains
    refine ⟨?_, hcontains⟩
    rw [List.foldl_cons, hget, get?_reparentOne]
    by_cases hb : b = a <;> by_cases hmem : b ∈ as
    · rw [if_pos hmem, if_pos hb, if_pos (List.mem_cons_of_mem a hmem), Option.map_map]
      exact congrArg (Option.map · _) (funext (settled_settled _ b))
    · rw [if_neg hmem, if_pos hb, if_pos (hb ▸ List.mem_cons_self)]
    · rw [if_pos hmem, if_neg hb, if_pos (List.mem_cons_of_mem a hmem)]
    · rw [if_neg hmem, if_neg hb, if_neg (by simp [hb, hmem])]

/-- **Each record is settled by itself**, whatever comes before it. -/
theorem get?_reparentOrphans :
    (reparentOrphans t).get? a = (t.get? a).map (settled t.contains a) := by
  refine (get?_foldl_reparentOne t.keys).1.trans ?_
  split
  · rfl
  · rename_i hnone
    rw [Table.get?_eq_none_iff.mpr hnone]
    rfl

theorem contains_reparentOrphans : (reparentOrphans t).contains = t.contains :=
  (get?_foldl_reparentOne (b := Addr.root) t.keys).2

/-! ### The walk up -/

/-- The longest proper prefix of an address that has a record. -/
structure Nearest (living : Addr → Bool) (a b : Addr) : Prop where
  above : b.isAncestorOf a = true
  alive : living b = true
  longest : ∀ b', b'.isAncestorOf a = true → living b' = true → b'.segs.length ≤ b.segs.length

theorem pairwise_inits {α : Type} (l : List α) :
    l.inits.Pairwise fun x y => x.length < y.length := by
  induction l with
  | nil => exact List.pairwise_singleton _ _
  | cons x l ih =>
    rw [List.inits_cons, List.pairwise_cons, List.pairwise_map]
    refine ⟨fun y hy => ?_, ih.imp fun h => Nat.succ_lt_succ h⟩
    obtain ⟨y, -, rfl⟩ := List.mem_map.mp hy
    exact Nat.succ_pos _

namespace Addr

/-- Nearest first. -/
theorem pairwise_ancestors (a : Addr) :
    a.ancestors.Pairwise fun x y => y.segs.length < x.segs.length := by
  rw [ancestors, List.pairwise_map, List.pairwise_reverse]
  exact (pairwise_inits _).tail

theorem mem_ancestors_iff : b ∈ a.ancestors ↔ b.segs ≠ [] ∧ b.isAncestorOf a = true := by
  have htail (l x : List String) : x ∈ l.inits.tail ↔ x ≠ [] ∧ x <+: l := by
    cases l with
    | nil => simp
    | cons y l =>
      rw [List.inits_cons, List.tail_cons]
      cases x with
      | nil => simp
      | cons z x =>
        rw [List.cons_prefix_cons, List.mem_map]
        simp only [List.mem_inits, List.cons.injEq]
        grind
  have hmem : b ∈ a.ancestors ↔ b.segs ∈ a.segs.dropLast.inits.tail := by
    rw [ancestors, List.mem_map]
    simp only [List.mem_reverse]
    constructor
    · rintro ⟨l, hl, rfl⟩
      exact hl
    · intro h
      exact ⟨b.segs, h, rfl⟩
  have hproper : b.isAncestorOf a = true ↔ b.segs.length < a.segs.length ∧ b.segs <+: a.segs := by
    simp [isAncestorOf, List.isPrefixOf_iff_prefix]
  rw [hmem, htail, hproper]
  refine and_congr_right fun hne => ?_
  constructor
  · intro h
    have hlen := h.length_le
    have hpos := List.length_pos_iff.mpr hne
    rw [List.length_dropLast] at hlen
    exact ⟨by omega, h.trans (List.dropLast_prefix a.segs)⟩
  · rintro ⟨hlen, hpre⟩
    refine List.prefix_of_prefix_length_le hpre (List.dropLast_prefix a.segs) ?_
    rw [List.length_dropLast]
    omega

/-- The parent is the first of the ancestors. -/
theorem ancestors_eq_cons (h : a.parent = some p) : ∃ rest, a.ancestors = p :: rest := by
  rw [parent] at h
  split at h
  · cases h
  rename_i hlen
  obtain rfl := Option.some.inj h
  have hdrop : a.segs.dropLast.length = a.segs.length - 1 := List.length_dropLast
  have hmem : (⟨a.segs.dropLast⟩ : Addr) ∈ a.ancestors := by
    refine mem_ancestors_iff.mpr ⟨List.ne_nil_of_length_pos (hdrop ▸ by omega), ?_⟩
    simp only [isAncestorOf, Bool.and_eq_true, decide_eq_true_eq, List.isPrefixOf_iff_prefix]
    exact ⟨by omega, List.dropLast_prefix a.segs⟩
  have hpairwise := pairwise_ancestors a
  have hlt (b : Addr) (hb : b ∈ a.ancestors) : b.segs.length < a.segs.length := by
    have habove := (mem_ancestors_iff.mp hb).2
    simp only [isAncestorOf, Bool.and_eq_true, decide_eq_true_eq] at habove
    exact habove.1
  cases hcases : a.ancestors with
  | nil => simp [hcases] at hmem
  | cons x rest =>
    rw [hcases] at hmem hpairwise hlt
    obtain heq | hrest := List.mem_cons.mp hmem
    · exact ⟨rest, by rw [heq]⟩
    · have hshorter := (List.pairwise_cons.mp hpairwise).1 _ hrest
      have hx := hlt x List.mem_cons_self
      dsimp only at hshorter
      omega

end Addr

section

variable {living : Addr → Bool}

/-- **The walk up stops at the longest prefix** that has a record. -/
theorem nearest_of_nearestLiving (hroot : living ⟨[]⟩ = false) (hparent : a.parent = some p)
    (hgone : living p = false) (h : nearestLiving living a = some b) : Nearest living a b := by
  obtain ⟨rest, hancestors⟩ := Addr.ancestors_eq_cons hparent
  have hpairwise := Addr.pairwise_ancestors a
  rw [nearestLiving, hancestors, List.drop_one, List.tail_cons] at h
  obtain ⟨hb, front, back, hrest, hfront⟩ := List.find?_eq_some_iff_append.mp h
  rw [hancestors, hrest] at hpairwise
  have hmem (b' : Addr) (habove : b'.isAncestorOf a = true) (hliving : living b' = true) :
      b' ∈ front ++ b :: back := by
    have hne : b'.segs ≠ [] := fun hnil => by
      obtain rfl : b' = ⟨[]⟩ := congrArg Addr.mk hnil
      simp [hroot] at hliving
    have := Addr.mem_ancestors_iff.mpr ⟨hne, habove⟩
    rw [hancestors, hrest, List.mem_cons] at this
    refine this.resolve_left fun hp => ?_
    simp [hp, hgone] at hliving
  refine ⟨?_, hb, fun b' habove hliving => ?_⟩
  · refine (Addr.mem_ancestors_iff.mp ?_).2
    rw [hancestors, hrest]
    simp
  · obtain hbefore | hhere | hafter : b' ∈ front ∨ b' = b ∨ b' ∈ back := by
      simpa using hmem b' habove hliving
    · simpa [hliving] using hfront b' hbefore
    · rw [hhere]
    · have hpair := (List.pairwise_append.mp (List.pairwise_cons.mp hpairwise).2).2.1
      exact Nat.le_of_lt ((List.pairwise_cons.mp hpair).1 b' hafter)

/-- Where it finds none, none is there. -/
theorem not_living_of_nearestLiving (hroot : living ⟨[]⟩ = false) (hparent : a.parent = some p)
    (hgone : living p = false) (h : nearestLiving living a = none)
    (habove : b.isAncestorOf a = true) : living b = false := by
  obtain ⟨rest, hancestors⟩ := Addr.ancestors_eq_cons hparent
  rw [nearestLiving, hancestors, List.drop_one, List.tail_cons] at h
  by_contra hliving
  rw [Bool.not_eq_false] at hliving
  have hne : b.segs ≠ [] := fun hnil => by
    obtain rfl : b = ⟨[]⟩ := congrArg Addr.mk hnil
    simp [hroot] at hliving
  have hmem := Addr.mem_ancestors_iff.mpr ⟨hne, habove⟩
  rw [hancestors, List.mem_cons] at hmem
  obtain rfl | hmem := hmem
  · simp [hgone] at hliving
  · exact List.find?_eq_none.mp h b hmem hliving

end

/-! ### The next child -/

/-- A segment that a number spells is that number's. -/
theorem parseU32_toString {n : ℕ} (h : Addr.validSeg (toString n) = true) :
    parseU32 (toString n) = some n := by
  have hdigits : (toString n).toList = Nat.toDigits 10 n := Nat.toList_repr
  simp only [Addr.validSeg, Bool.and_eq_true, decide_eq_true_eq, Bool.not_eq_true'] at h
  obtain ⟨⟨-, hsize⟩, hall⟩ := h
  have hsize' : (Nat.toDigits 10 n).length ≤ 6 := by
    refine Nat.le_trans ?_ hsize
    rw [← hdigits, ← Utf8.len_toList]
    exact Utf8.length_le_len _
  have hlt : n < 10 ^ 6 := (Nat.length_toDigits_le_iff (by decide) (by decide)).mp hsize'
  have hvalue : (Nat.toDigits 10 n).foldl (fun n c => 10 * n + (c.toNat - '0'.toNat)) 0 = n :=
    Nat.ofDigitChars_ten_toDigits
  have hne : (Nat.toDigits 10 n).isEmpty = false := by
    simp
  rw [parseU32]
  dsimp only
  rw [hdigits] at hall ⊢
  rw [hall, hvalue, hne]
  simp only [Bool.not_true, Bool.or_self, Bool.false_eq_true, if_false]
  rw [if_pos (by omega)]

/-- The segments of an address that parses. -/
theorem Addr.segs_of_parse {s : String} (h : Addr.parse s = some a) :
    ∃ segs, a.segs = "0" :: segs ∧ ∀ seg ∈ segs, validSeg seg = true := by
  unfold parse at h
  split at h
  · cases h
  split at h
  · rename_i segs hsplit
    split at h
    · rename_i hall
      obtain rfl := Option.some.inj h
      exact ⟨segs, rfl, List.all_eq_true.mp hall⟩
    · cases h
  · cases h

/-- **The next child's address** is over nothing that is left. -/
theorem not_prefix_next (hvalid : ∀ a, t.contains a = true → Addr.parse a.text = some a)
    (hp : p.segs ≠ []) (ha : t.contains a = true) :
    ¬ (p.child (nextChildOrdinal t p)).segs <+: a.segs := by
  intro hprefix
  obtain ⟨below, hbelow⟩ := hprefix
  rw [Addr.child, List.append_assoc] at hbelow
  have hdepth : p.depth + 1 = p.segs.length := by
    have := List.length_pos_iff.mpr hp
    rw [Addr.depth]
    omega
  have hseg : a.segs[p.depth + 1]? = some (toString (nextChildOrdinal t p)) := by
    rw [← hbelow, hdepth, List.getElem?_append_right (Nat.le_refl _), Nat.sub_self]
    rfl
  have hanc : p.isAncestorOf a = true := by
    simp only [Addr.isAncestorOf, Bool.and_eq_true, decide_eq_true_eq,
      List.isPrefixOf_iff_prefix]
    exact ⟨by rw [← hbelow]; simp, hbelow ▸ List.prefix_append ..⟩
  obtain ⟨segs, hsegs, hall⟩ := Addr.segs_of_parse (hvalid a ha)
  rw [hsegs, List.getElem?_cons_succ] at hseg
  have hparse := parseU32_toString (hall _ (List.mem_of_getElem? hseg))
  refine Nat.lt_irrefl _ (lt_nextChildOrdinal ha hanc ?_)
  rw [hsegs, List.getElem?_cons_succ, hseg]
  exact hparse

/-! ### The files -/

/-- A record under the name of its file, without the extension. -/
abbrev CellFile := String × CellRecord

/-- The name is the address that the record has. -/
def wellNamed (f : CellFile) : Bool := Addr.parse f.1 = some f.2.addr

/-- The index that a directory's files make. Those that do not parse are not among them. -/
def readTree (files : List CellFile) : Tree :=
  Table.empty.insertAll ((files.filter wellNamed).map fun f => (f.2.addr, f.2))

/-- `load_tree`. -/
def loadTree (files : List CellFile) : Tree := reparentOrphans (readTree files)

/-- The driver's disk has such files. -/
theorem Disk.loadTree_eq (k : Disk) (mandala : ℕ) : k.loadTree mandala =
    Fabrica.loadTree ((k.cells.entries.filter fun x => x.1.1 = mandala).map fun x =>
      (x.1.2.text, x.2)) := by
  rw [Disk.loadTree, Fabrica.loadTree, readTree, Table.insertAll, List.foldl_map, List.filter_map,
    List.foldl_map, List.filter_filter]
  refine congrArg (fun l => reparentOrphans (List.foldl _ _ l)) (List.filter_congr fun x _ => ?_)
  rw [Function.comp_apply, wellNamed, Bool.and_comm]

/-- Each address parses, and its record has it. -/
def ValidTree (t : Tree) : Prop :=
  ∀ a c, t.get? a = some c → c.addr = a ∧ Addr.parse a.text = some a

theorem ValidTree.root (h : ValidTree t) : t.contains ⟨[]⟩ = false := by
  by_contra hroot
  obtain ⟨c, hc⟩ := Table.contains_iff.mp (Bool.not_eq_false _ ▸ hroot)
  have := (h _ c hc).2
  simp [Addr.text, Addr.parse] at this

/-- A tree read back from its files, in whatever order they are listed. -/
theorem get?_readTree (h : ValidTree t) {files : List CellFile}
    (hfiles : (files.filter wellNamed).Perm (t.entries.map fun x => (x.1.text, x.2))) (a : Addr) :
    (readTree files).get? a = t.get? a := by
  have hnamed : (files.filter wellNamed).Perm
      (t.entries.map fun x => (x.1.text, { x.2 with addr := x.1 })) := by
    refine hfiles.trans (.of_eq (List.map_congr_left fun x hx => ?_))
    rw [← (h x.1 x.2 (Table.mem_iff_get?.mp hx)).1]
  let file (k : Addr) (c : CellRecord) : CellFile := (k.text, { c with addr := k })
  refine (Table.get?_insertAll_of_perm (f := file) hnamed fun _ _ => rfl).trans ?_
  cases hget : t.get? a with
  | none => rfl
  | some c =>
    rw [Option.map_some, ← (h a c hget).1]

/-! ### The lineage -/

/-- What has become of a tree: an orphan has the nearest ancestor that is left, if one is, and no
other record is touched. -/
structure Reparented (t t' : Tree) : Prop where
  addresses : t'.contains = t.contains
  kept : ∀ a c, t.get? a = some c → (∀ p, a.parent = some p → t.contains p = true) →
    t'.get? a = some c
  orphan : ∀ a c p, t.get? a = some c → a.parent = some p → t.contains p = false →
    (∃ b, Nearest t.contains a b ∧ t'.get? a = some { c with reparentedTo := some b }) ∨
      (∀ b, b.isAncestorOf a = true → t.contains b = false) ∧ t'.get? a = some c

theorem reparented_reparentOrphans (h : ValidTree t) : Reparented t (reparentOrphans t) := by
  refine ⟨contains_reparentOrphans, fun a c hget hparent => ?_, fun a c p hget hparent hgone => ?_⟩
  · rw [get?_reparentOrphans, hget, Option.map_some, settled]
    split
    · rfl
    · rename_i parent hsome
      rw [if_pos (hparent parent hsome)]
  · have hsettled : (reparentOrphans t).get? a = some (settled t.contains a c) := by
      rw [get?_reparentOrphans, hget, Option.map_some]
    cases hnear : nearestLiving t.contains a with
    | none =>
      refine .inr ⟨fun b => not_living_of_nearestLiving h.root hparent hgone hnear, ?_⟩
      simpa [settled, hparent, hgone, hnear] using hsettled
    | some b =>
      refine .inl ⟨b, nearest_of_nearestLiving h.root hparent hgone hnear, ?_⟩
      simpa [settled, hparent, hgone, hnear] using hsettled

/-- The lineage of a tree is sound: how it is loaded and reparented, and where it grows. -/
structure SoundLineage (t : Tree) : Prop where
  reparented : Reparented t (reparentOrphans t)
  idempotent : ∀ a, (reparentOrphans (reparentOrphans t)).get? a = (reparentOrphans t).get? a
  anyOrder : ∀ t' : Tree, t'.entries.Perm t.entries →
    ∀ a, (reparentOrphans t').get? a = (reparentOrphans t).get? a
  loaded : ∀ files : List CellFile,
    (files.filter wellNamed).Perm (t.entries.map fun x => (x.1.text, x.2)) →
    ∀ a, (loadTree files).get? a = (reparentOrphans t).get? a
  fresh : ∀ p a : Addr, p.segs ≠ [] → t.contains a = true →
    a ≠ p.child (nextChildOrdinal t p) ∧ (p.child (nextChildOrdinal t p)).isAncestorOf a = false

/-- Two trees that answer alike are reparented alike. -/
theorem get?_reparentOrphans_congr (h : ∀ a, t'.get? a = t.get? a) (a : Addr) :
    (reparentOrphans t').get? a = (reparentOrphans t).get? a := by
  have hcontains : t'.contains = t.contains := by
    funext b
    rw [Table.contains, Table.contains, h]
  rw [get?_reparentOrphans, get?_reparentOrphans, h, hcontains]

/-- **Orphans keep a sound lineage**, whichever files are lost. -/
theorem loadTree_lineage (t : Tree) (hvalid : ValidTree t) : SoundLineage t := by
  refine ⟨reparented_reparentOrphans hvalid, fun a => ?_, fun t' hperm => ?_,
    fun files hfiles => ?_, fun p a hp ha => ?_⟩
  · rw [get?_reparentOrphans (t := reparentOrphans t), contains_reparentOrphans,
      get?_reparentOrphans, Option.map_map]
    exact congrArg (Option.map · _) (funext (settled_settled _ a))
  · exact get?_reparentOrphans_congr fun a => Table.get?_congr fun c => hperm.mem_iff
  · exact get?_reparentOrphans_congr (get?_readTree hvalid hfiles)
  · have hvalid' (a : Addr) (ha : t.contains a = true) : Addr.parse a.text = some a := by
      obtain ⟨c, hc⟩ := Table.contains_iff.mp ha
      exact (hvalid a c hc).2
    have hover := not_prefix_next hvalid' hp ha
    refine ⟨fun heq => hover (heq ▸ List.prefix_refl _), ?_⟩
    rw [Bool.eq_false_iff]
    intro hanc
    simp only [Addr.isAncestorOf, Bool.and_eq_true, List.isPrefixOf_iff_prefix] at hanc
    exact hover hanc.2

theorem validTree_of_entries
    (h : ∀ x ∈ t.entries, x.2.addr = x.1 ∧ Addr.parse x.1.text = some x.1) : ValidTree t :=
  fun _ _ hget => h _ (Table.mem_of_get? hget)

/-- The root and the cell `0.1.2` are left. -/
theorem loadTree_lineage_orphan :
    let cell (a : Addr) : Addr × CellRecord := (a, ⟨a, .spine, "", ⟨1, 1, 1, 1⟩, "", none, "open",
      none, none, 0, none, false, none, [], false, none⟩)
    SoundLineage ⟨[cell ⟨["0"]⟩, cell ⟨["0", "1", "2"]⟩], by decide⟩ :=
  loadTree_lineage _ (validTree_of_entries (by decide))

end ApexOS.Fabrica
