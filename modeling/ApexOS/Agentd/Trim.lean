import ApexOS.Agentd.History
import ApexOS.Agentd.Rollback
import ApexOS.Lib.Saturating
import Mathlib.Algebra.GroupWithZero.Nat

/-!
# Trimming a history

`agentd/crates/core/src/history.rs`, the part for every turn: `trim_history` and its estimates. Once
a history is estimated above the trigger, its oldest turns are dropped, down to the target, and a
marker in front says how many messages are gone. A later trim reads the number back from the
marker's text and goes on from there.

How a JSON value prints is a parameter: only the length of the text and its backslashes count.
Estimates are taken without bound, the number in a marker is a word.

## Main definitions

* `estimateHistory`, `trimTrigger`, `trimTarget`, `trimHistory`: the trim
* `trimMarker`, `markerDropped`: the marker, and reading it
* `Trims`: what is expected of a trim
* `Accounts`: what is expected of a marker

## Main results

* `trimHistory_trims`: a trim cuts where it should, and not twice
* `accounts_run`: in every run of appends and trims the marker says how many messages are gone
-/

namespace ApexOS.Agentd

open Rollback (stripPrefix parseU64)

/-! ### Estimates -/

/-- `Value::to_string`. -/
abbrev JsonText := Json → String

variable (text : JsonText)

/-- A block's share of `msg_tokens`. -/
def blockTokens : ContentBlock → ℕ
  | .text text => text.utf8ByteSize / 4
  | .thinking thinking _ => thinking.utf8ByteSize / 4
  | .toolUse _ _ input => (text input).utf8ByteSize / 3
  | .toolResult _ content _ =>
    ((text content).utf8ByteSize + 3 * (text content).toList.count '\\') / 3
  | .image .. => 1600

/-- `msg_tokens`. -/
def msgTokens (m : Message) : ℕ := ((contentOf m).map (blockTokens text)).sum + 4

/-- `estimate_history`. -/
def estimateHistory (history : List Message) : ℕ := (history.map (msgTokens text)).sum

/-- `is_turn_start`. -/
def isTurnStart : Message → Bool
  | .user content => !content.any ContentBlock.isToolResult
  | .assistant _ => false

/-- `trim_trigger`. -/
def trimTrigger (budgetTokens : UInt64) : UInt64 := Saturating.add budgetTokens (budgetTokens / 5)

/-- `trim_target`. -/
def trimTarget (budgetTokens : UInt64) : UInt64 := budgetTokens - budgetTokens / 4

/-! ### The marker -/

/-- `TRIM_MARKER_PREFIX`. -/
def trimMarkerPrefix : String := "[context-window notice: "

/-- What follows the number. -/
def trimMarkerRest : String :=
  " " ++ ("earlier messages were trimmed from your " ++
    "working window to fit the context budget. This is a hole in the transcript you " ++
    "see, not in the record — the full history is on disk. Call `session_search` " ++
    "(this session) to retrieve what slid out; do not reconstruct it.]")

theorem head?_trimMarkerRest : trimMarkerRest.toList.head? = some ' ' := by
  rw [trimMarkerRest, String.toList_append]
  rfl

/-- `trim_marker`. -/
def trimMarker (droppedTotal : UInt64) : Message :=
  .user [.text (trimMarkerPrefix ++ Nat.repr droppedTotal.toNat ++ trimMarkerRest)]

/-- The first word of a text; of a blank one, nothing. -/
def firstWord (s : String) : String :=
  String.ofList ((s.toList.dropWhile isWhitespace).takeWhile fun c => !isWhitespace c)

/-- `marker_dropped`. -/
def markerDropped : Message → Option UInt64
  | .user [.text text] => (stripPrefix trimMarkerPrefix text).bind fun rest =>
    parseU64 (firstWord rest)
  | _ => none

/-! ### The trim -/

/-- Where a turn starts in a history. -/
def startsAt (history : List Message) (i : ℕ) : Bool := history[i]?.any isTurnStart

/-- The first start of a turn from which all that follows fits, or else the last start. -/
def cutPoint (history : List Message) (target : ℕ) : Option ℕ :=
  let fits := (List.range history.length).find? fun i =>
    startsAt history i && estimateHistory text (history.drop i) ≤ target
  fits.or ((List.range history.length).reverse.find? (startsAt history))

/-- `trim_history`. -/
def trimHistory (history : List Message) (budgetTokens : UInt64) : List Message :=
  if budgetTokens = 0 then history
  else if history = [] then history
  else if estimateHistory text history ≤ (trimTrigger budgetTokens).toNat then history
  else
    match cutPoint text history (trimTarget budgetTokens).toNat with
    | none => history
    | some cut =>
      if 0 < cut then
        let prior := history.head?.bind markerDropped
        let droppedNew := cut - if prior.isSome then 1 else 0
        trimMarker (prior.getD 0 + UInt64.ofNat droppedNew) :: history.drop cut
      else history

/-! ### Reading the marker back -/

theorem stripPrefix_append (start s : String) : stripPrefix start (start ++ s) = some s := by
  rw [stripPrefix, String.toList_append, if_pos (by simp), List.drop_left, String.ofList_toList]

/-- A number is the first word of what it stands before. -/
theorem firstWord_repr (n : ℕ) {s : String} (hs : s.toList.head? = some ' ') :
    firstWord (Nat.repr n ++ s) = Nat.repr n := by
  obtain ⟨rest, hs⟩ := List.head?_eq_some_iff.mp hs
  have hdigits : ∀ c ∈ Nat.toDigits 10 n, isWhitespace c = false := fun c hc =>
    Rollback.isWhitespace_of_isDigit (Nat.isDigit_of_mem_toDigits (by decide) (by decide) hc)
  have hdrop : (Nat.toDigits 10 n ++ ' ' :: rest).dropWhile isWhitespace
      = Nat.toDigits 10 n ++ ' ' :: rest := by
    cases hd : Nat.toDigits 10 n with
    | nil => exact absurd hd Nat.toDigits_ne_nil
    | cons c l =>
      rw [List.cons_append, List.dropWhile_cons_of_neg]
      simp [hdigits c (hd ▸ List.mem_cons_self)]
  have htake : (Nat.toDigits 10 n ++ ' ' :: rest).takeWhile (fun c => !isWhitespace c)
      = Nat.toDigits 10 n := by
    rw [List.takeWhile_append_of_pos fun c hc => by simp [hdigits c hc],
      List.takeWhile_cons_of_neg (by decide), List.append_nil]
  rw [firstWord, String.toList_append, Nat.toList_repr, hs, hdrop, htake,
    Nat.repr_eq_ofList_toDigits]

/-- **A marker's number** is read back from its text. -/
theorem markerDropped_trimMarker (n : UInt64) : markerDropped (trimMarker n) = some n := by
  rw [trimMarker, markerDropped, String.append_assoc, stripPrefix_append, Option.bind_some,
    firstWord_repr _ head?_trimMarkerRest, Rollback.parseU64_repr]

/-! ### Where to cut -/

section Cut

variable {history : List Message} {target cut i : ℕ}

theorem find?_reverse_range_eq_some {p : ℕ → Bool} {n : ℕ} :
    (List.range n).reverse.find? p = some i ↔ p i = true ∧ i < n ∧ ∀ j < n,
    i < j → p j = false := by
  induction n with
  | zero => simp
  | succ n ih =>
    rw [List.range_succ, List.reverse_append, List.reverse_singleton, List.singleton_append,
      List.find?_cons]
    cases hn : p n with
    | true =>
      simp only [Option.some.injEq]
      constructor
      · rintro rfl
        exact ⟨hn, by omega, fun j hj hlt => absurd hlt (by omega)⟩
      · rintro ⟨-, hi, hlast⟩
        by_contra hne
        have := hlast n (by omega) (by omega)
        rw [hn] at this
        cases this
    | false =>
      rw [ih]
      constructor
      · rintro ⟨hp, hi, hlast⟩
        refine ⟨hp, by omega, fun j hj hlt => ?_⟩
        rcases Nat.lt_succ_iff_lt_or_eq.mp hj with hj | rfl
        · exact hlast j hj hlt
        · exact hn
      · rintro ⟨hp, hi, hlast⟩
        refine ⟨hp, ?_, fun j hj hlt => hlast j (by omega) hlt⟩
        rcases Nat.lt_succ_iff_lt_or_eq.mp hi with hi | rfl
        · exact hi
        · rw [hp] at hn
          cases hn

theorem lt_of_startsAt (h : startsAt history i = true) : i < history.length := by
  by_contra hge
  rw [startsAt, List.getElem?_eq_none (by omega)] at h
  cases h

/-- The cut is the first start from which the rest fits, or the last start if there is none. -/
def Chosen (history : List Message) (target cut : ℕ) : Prop :=
  (estimateHistory text (history.drop cut) ≤ target ∧ ∀ i, startsAt history i = true →
      estimateHistory text (history.drop i) ≤ target → cut ≤ i) ∨
    ((∀ i, startsAt history i = true → target < estimateHistory text (history.drop i)) ∧
      ∀ i, startsAt history i = true → i ≤ cut)

variable {text}

theorem cutPoint_eq_some_iff : cutPoint text history target = some cut ↔
    startsAt history cut = true ∧ Chosen text history target cut := by
  rw [cutPoint]
  cases hfits : (List.range history.length).find? fun i =>
      startsAt history i && estimateHistory text (history.drop i) ≤ target with
  | some first =>
    obtain ⟨hfirst, -, hleast⟩ := List.find?_range_eq_some.mp hfits
    simp only [Bool.and_eq_true, decide_eq_true_eq] at hfirst
    have hleast' : ∀ i, startsAt history i = true →
        estimateHistory text (history.drop i) ≤ target → first ≤ i := by
      intro i hi hle
      by_contra hlt
      have := hleast i (by omega)
      simp [hi, hle] at this
    rw [Option.some_or]
    constructor
    · rintro h
      obtain rfl := Option.some.inj h
      exact ⟨hfirst.1, .inl ⟨hfirst.2, hleast'⟩⟩
    · rintro ⟨hstart, ⟨hle, hfirst'⟩ | ⟨hnone, -⟩⟩
      · exact congrArg some (Nat.le_antisymm (hleast' cut hstart hle)
          (hfirst' first hfirst.1 hfirst.2))
      · exact absurd (hnone first hfirst.1) (Nat.not_lt.mpr hfirst.2)
  | none =>
    have hnone : ∀ i, startsAt history i = true →
        target < estimateHistory text (history.drop i) := by
      intro i hi
      have := List.find?_range_eq_none.mp hfits i (lt_of_startsAt hi)
      simpa [hi] using this
    rw [Option.none_or, find?_reverse_range_eq_some]
    constructor
    · rintro ⟨hstart, hlt, hlast⟩
      refine ⟨hstart, .inr ⟨hnone, fun i hi => ?_⟩⟩
      by_contra hgt
      have := hlast i (lt_of_startsAt hi) (by omega)
      rw [hi] at this
      cases this
    · rintro ⟨hstart, ⟨hle, -⟩ | ⟨-, hlast⟩⟩
      · exact absurd (hnone cut hstart) (Nat.not_lt.mpr hle)
      · refine ⟨hstart, lt_of_startsAt hstart, fun j _ hlt => Bool.eq_false_iff.mpr fun hj => ?_⟩
        exact absurd (hlast j hj) (by omega)

theorem cutPoint_eq_none_iff :
    cutPoint text history target = none ↔ ∀ i, startsAt history i = false := by
  constructor
  · intro h i
    rw [cutPoint, Option.or_eq_none_iff] at h
    by_contra hi
    have hi : startsAt history i = true := Bool.eq_true_of_not_eq_false hi
    have := List.find?_eq_none.mp h.2 i (by simpa using lt_of_startsAt hi)
    exact this hi
  · intro h
    cases hcut : cutPoint text history target with
    | none => rfl
    | some cut =>
      rw [cutPoint_eq_some_iff, h cut] at hcut
      cases hcut.1

end Cut

/-! ### What a trim does -/

/-- A marker, and a suffix that starts with a turn: the longest that fits the target, or the last
turn. -/
def CutTo (history : List Message) (budgetTokens total : UInt64) (cut : ℕ) (r : List Message) :
    Prop :=
  0 < cut ∧ startsAt history cut = true ∧ Chosen text history (trimTarget budgetTokens).toNat cut ∧
    r = trimMarker total :: history.drop cut

/-- What is expected of a trim of `history` to `r`. -/
structure Trims (history : List Message) (budgetTokens : UInt64) (r : List Message) : Prop where
  /-- a budget of zero turns it off, and below the trigger nothing happens -/
  kept : budgetTokens = 0 ∨ estimateHistory text history ≤ (trimTrigger budgetTokens).toNat →
    r = history
  /-- above it, the history is cut wherever it can be -/
  cut : budgetTokens ≠ 0 → (trimTrigger budgetTokens).toNat < estimateHistory text history →
    (∃ i, 0 < i ∧ startsAt history i = true) →
      ∃ total cut, CutTo text history budgetTokens total cut r
  /-- and what is left is then a marker and what follows the cut -/
  shape : r = history ∨ ∃ total cut, CutTo text history budgetTokens total cut r
  /-- the last turn is in it -/
  last : ∀ i, startsAt history i = true → (∀ j, startsAt history j = true → j ≤ i) →
    history.drop i <:+ r
  paired : Paired [] history → Paired [] r
  /-- trimming once more changes nothing -/
  again : trimHistory text r budgetTokens = r

section Trim

variable {text} {history r : List Message} {budgetTokens total : UInt64} {cut : ℕ}

theorem trimTarget_le_trimTrigger (budgetTokens : UInt64) :
    (trimTarget budgetTokens).toNat ≤ (trimTrigger budgetTokens).toNat := by
  have hlt := budgetTokens.toNat_lt
  have hquarter : budgetTokens / 4 ≤ budgetTokens := by
    rw [UInt64.le_iff_toNat_le, UInt64.toNat_div]
    exact Nat.div_le_self _ _
  rw [trimTarget, trimTrigger, UInt64.toNat_sub_of_le _ _ hquarter, Saturating.toNat_add]
  omega

/-- What a trim does, in its cases. -/
theorem trimHistory_eq (text : JsonText) (history : List Message) (budgetTokens : UInt64) :
    (trimHistory text history budgetTokens = history ∧
      (budgetTokens = 0 ∨ estimateHistory text history ≤ (trimTrigger budgetTokens).toNat ∨
        ∀ i, 0 < i → startsAt history i = false)) ∨
    (budgetTokens ≠ 0 ∧ (trimTrigger budgetTokens).toNat < estimateHistory text history ∧
      ∃ cut, 0 < cut ∧ startsAt history cut = true ∧
        Chosen text history (trimTarget budgetTokens).toNat cut ∧
        trimHistory text history budgetTokens
          = trimMarker ((history.head?.bind markerDropped).getD 0 + UInt64.ofNat
              (cut - if (history.head?.bind markerDropped).isSome then 1 else 0))
            :: history.drop cut) := by
  rw [trimHistory]
  split
  · exact .inl ⟨rfl, .inl ‹_›⟩
  rename_i hbudget
  split
  · rename_i hnil
    refine .inl ⟨rfl, .inr (.inl ?_)⟩
    rw [hnil]
    exact Nat.zero_le _
  split
  · exact .inl ⟨rfl, .inr (.inl ‹_›)⟩
  rename_i hover
  split
  · rename_i hnone
    exact .inl ⟨rfl, .inr (.inr fun i _ => cutPoint_eq_none_iff.mp hnone i)⟩
  rename_i cut hcut
  obtain ⟨hstart, hchosen⟩ := cutPoint_eq_some_iff.mp hcut
  split
  · rename_i hpos
    exact .inr ⟨hbudget, Nat.not_le.mp hover, cut, hpos, hstart, hchosen, rfl⟩
  · -- only the whole could be cut off, and it does not fit
    rename_i hpos
    obtain rfl : cut = 0 := by omega
    refine .inl ⟨rfl, .inr (.inr fun i hi => Bool.eq_false_iff.mpr fun hstarts => ?_)⟩
    rcases hchosen with ⟨hle, -⟩ | ⟨-, hlast⟩
    · rw [List.drop_zero] at hle
      exact hover (hle.trans (trimTarget_le_trimTrigger budgetTokens))
    · exact absurd (hlast i hstarts) (by omega)

@[simp] theorem startsAt_cons_succ (m : Message) (history : List Message) (i : ℕ) :
    startsAt (m :: history) (i + 1) = startsAt history i := rfl

theorem startsAt_drop (history : List Message) (cut i : ℕ) :
    startsAt (history.drop cut) i = startsAt history (cut + i) := by
  rw [startsAt, startsAt, List.getElem?_drop]

theorem resultIds_of_isTurnStart {m : Message} (h : isTurnStart m = true) : resultIds m = [] := by
  cases m with
  | assistant content => rfl
  | user content =>
    rw [resultIds_eq_nil_iff, toolResults, List.filter_eq_nil_iff]
    simpa [isTurnStart] using h

/-- What follows the start of a turn is paired by itself. -/
theorem Paired.drop {due : List String} {i : ℕ} (h : Paired due history)
    (hi : startsAt history i = true) : Paired [] (history.drop i) := by
  induction history generalizing due i with
  | nil => cases hi
  | cons m history ih =>
    cases i with
    | zero =>
      have hm : resultIds m = [] := resultIds_of_isTurnStart (by simpa [startsAt] using hi)
      exact ⟨by simp [hm], h.2⟩
    | succ i => exact ih h.2 hi

theorem paired_trimMarker (total : UInt64) (h : Paired [] r) :
    Paired [] (trimMarker total :: r) :=
  ⟨by simp [trimMarker, resultIds, ContentBlock.resultId], h⟩

/-- Of a marker and what follows a cut, only the marker can be cut off, and it is put back. -/
theorem CutTo.again (h : CutTo text history budgetTokens total cut r) :
    trimHistory text r budgetTokens = r := by
  obtain ⟨hpos, hstart, hchosen, rfl⟩ := h
  rcases trimHistory_eq text (trimMarker total :: history.drop cut) budgetTokens with
    ⟨heq, -⟩ | ⟨-, hover, cut', hpos', hstart', hchosen', heq⟩
  · exact heq
  -- the second cut is right after the marker
  obtain ⟨k, rfl⟩ : ∃ k, cut' = k + 1 := ⟨cut' - 1, by omega⟩
  have hstarts : startsAt (trimMarker total :: history.drop cut) 1 = true := by
    rw [startsAt_cons_succ, startsAt_drop]
    exact hstart
  have hk : k = 0 := by
    rw [startsAt_cons_succ, startsAt_drop] at hstart'
    rcases hchosen with ⟨hle, -⟩ | ⟨-, hlast⟩
    · rcases hchosen' with ⟨-, hleast'⟩ | ⟨hnone', -⟩
      · have := hleast' 1 hstarts (by simpa using hle)
        omega
      · exact absurd (hnone' 1 hstarts) (Nat.not_lt.mpr (by simpa using hle))
    · have := hlast (cut + k) hstart'
      omega
  subst hk
  rw [heq, List.head?_cons, Option.bind_some, markerDropped_trimMarker]
  simp

/-- **A trim** cuts where it should, keeps calls with their results, and is done at once. -/
theorem trimHistory_trims (history : List Message) (budgetTokens : UInt64) :
    Trims text history budgetTokens (trimHistory text history budgetTokens) := by
  rcases trimHistory_eq text history budgetTokens with
    ⟨heq, hwhy⟩ | ⟨hbudget, hover, cut, hpos, hstart, hchosen, heq⟩
  · rw [heq]
    refine ⟨fun _ => rfl, fun hbudget hover ⟨i, hi, hstart⟩ => ?_, .inl rfl,
      fun i _ _ => List.drop_suffix i history, id, heq⟩
    rcases hwhy with h | h | h
    · exact absurd h hbudget
    · exact absurd h (Nat.not_le.mpr hover)
    · exact absurd hstart (by simp [h i hi])
  · have hcut : CutTo text history budgetTokens _ cut (trimHistory text history budgetTokens) :=
      ⟨hpos, hstart, hchosen, heq⟩
    refine ⟨fun h => ?_, fun _ _ _ => ⟨_, cut, hcut⟩, .inr ⟨_, cut, hcut⟩,
      fun i hi hlast => ?_, fun h => ?_, hcut.again⟩
    · rcases h with h | h
      · exact absurd h hbudget
      · exact absurd h (Nat.not_le.mpr hover)
    · rw [heq]
      have hsuffix : history.drop i <:+ history.drop cut := by
        obtain ⟨k, rfl⟩ := Nat.exists_eq_add_of_le (hlast cut hstart)
        rw [← List.drop_drop]
        exact List.drop_suffix k _
      exact hsuffix.trans (List.suffix_cons _ _)
    · rw [heq]
      exact paired_trimMarker _ (h.drop hstart)

end Trim

/-! ### What a marker says -/

/-- The message is a text that starts like a marker. -/
def StartsLikeMarker : Message → Prop
  | .user [.text text] => trimMarkerPrefix.toList <+: text.toList
  | _ => False

/-- What happens to a window. -/
inductive WindowEvent
  | append (m : Message)
  | trim (budgetTokens : UInt64)

def windowStep (history : List Message) : WindowEvent → List Message
  | .append m => history ++ [m]
  | .trim budgetTokens => trimHistory text history budgetTokens

/-- All that was appended. -/
def appended (es : List WindowEvent) : List Message :=
  es.filterMap fun
    | .append m => some m
    | .trim _ => none

/-- The number a window's marker says, if there is one in front. -/
def markerCount (history : List Message) : ℕ :=
  ((history.head?.bind markerDropped).map UInt64.toNat).getD 0

/-- A window without the marker in front. -/
def withoutMarker (history : List Message) : List Message :=
  if (history.head?.bind markerDropped).isSome then history.tail else history

/-- What is expected of a window into all of `log`. -/
structure Accounts (log history : List Message) : Prop where
  /-- no message but the first is a marker -/
  front : ∀ m ∈ history.tail, ¬ StartsLikeMarker m
  /-- the first is one, or looks like none -/
  readable : ∀ m ∈ history.head?, StartsLikeMarker m → ∃ n, m = trimMarker n
  /-- the window ends where the log ends -/
  window : withoutMarker history <:+ log
  /-- the marker says what is missing, as far as a word can -/
  count : markerCount history = (log.length - (withoutMarker history).length) % 2 ^ 64
  /-- which is all of it, if the log has no more messages than that -/
  total : log.length < 2 ^ 64 →
    markerCount history + (withoutMarker history).length = log.length

section Accounts

variable {text} {log history : List Message} {m : Message}

theorem markerDropped_of_not_startsLikeMarker (h : ¬ StartsLikeMarker m) :
    markerDropped m = none := by
  delta markerDropped
  split
  · rename_i text
    have hprefix : ¬ trimMarkerPrefix.toList.isPrefixOf text.toList = true := fun hp =>
      h (List.isPrefixOf_iff_prefix.mp hp)
    rw [stripPrefix, if_neg hprefix, Option.bind_none]
  · rfl

/-- The window is all of the log, or its last part behind a marker that says how much is gone. -/
def Windowed (log history : List Message) : Prop :=
  (∀ m ∈ log, ¬ StartsLikeMarker m) ∧
    (history = log ∨ ∃ dropped ≤ log.length,
      history = trimMarker (UInt64.ofNat dropped) :: log.drop dropped)

theorem Windowed.append (h : Windowed log history) (hm : ¬ StartsLikeMarker m) :
    Windowed (log ++ [m]) (history ++ [m]) := by
  obtain ⟨hlog, h⟩ := h
  refine ⟨fun x hx => ?_, h.imp (fun h => by rw [h]) ?_⟩
  · rcases List.mem_append.mp hx with hx | hx
    · exact hlog x hx
    · exact List.mem_singleton.mp hx ▸ hm
  · rintro ⟨dropped, hle, rfl⟩
    refine ⟨dropped, ?_, ?_⟩
    · rw [List.length_append]
      omega
    · rw [List.cons_append, List.drop_append_of_le_length hle]

theorem Windowed.trim (h : Windowed log history) (budgetTokens : UInt64) :
    Windowed log (trimHistory text history budgetTokens) := by
  obtain ⟨hlog, h⟩ := h
  rcases trimHistory_eq text history budgetTokens with
    ⟨heq, -⟩ | ⟨-, -, cut, hpos, hstart, -, heq⟩
  · rw [heq]
    exact ⟨hlog, h⟩
  have hcut := lt_of_startsAt hstart
  refine ⟨hlog, .inr ?_⟩
  rcases h with rfl | ⟨dropped, hle, rfl⟩
  · -- the first cut: what is in front is no marker
    have hnone : history.head?.bind markerDropped = none := by
      cases history with
      | nil => rfl
      | cons m history => exact markerDropped_of_not_startsLikeMarker (hlog m List.mem_cons_self)
    refine ⟨cut, Nat.le_of_lt hcut, ?_⟩
    rw [heq, hnone]
    simp
  · -- a later one: the marker goes too, and its number is carried on
    obtain ⟨k, rfl⟩ : ∃ k, cut = k + 1 := ⟨cut - 1, by omega⟩
    rw [List.length_cons, List.length_drop] at hcut
    refine ⟨dropped + k, by omega, ?_⟩
    rw [heq, List.head?_cons, Option.bind_some, markerDropped_trimMarker, List.drop_succ_cons,
      List.drop_drop, UInt64.ofNat_add]
    simp

theorem Windowed.accounts (h : Windowed log history) : Accounts log history := by
  obtain ⟨hlog, rfl | ⟨dropped, hle, rfl⟩⟩ := h
  · have hnone : history.head?.bind markerDropped = none := by
      cases history with
      | nil => rfl
      | cons m history => exact markerDropped_of_not_startsLikeMarker (hlog m List.mem_cons_self)
    have hwithout : withoutMarker history = history := by simp [withoutMarker, hnone]
    have hcount : markerCount history = 0 := by simp [markerCount, hnone]
    refine ⟨fun m hm => hlog m (List.mem_of_mem_tail hm), fun m hm hstarts => ?_, ?_, ?_, ?_⟩
    · exact absurd hstarts (hlog m (List.mem_of_head? hm))
    · rw [hwithout]
    · rw [hwithout, hcount, Nat.sub_self, Nat.zero_mod]
    · rw [hwithout, hcount, Nat.zero_add]
      exact fun _ => rfl
  · have hread : ((trimMarker (UInt64.ofNat dropped) :: log.drop dropped).head?.bind
        markerDropped) = some (UInt64.ofNat dropped) := markerDropped_trimMarker _
    have hwithout : withoutMarker (trimMarker (UInt64.ofNat dropped) :: log.drop dropped)
        = log.drop dropped := by
      rw [withoutMarker, hread]
      rfl
    have hcount : markerCount (trimMarker (UInt64.ofNat dropped) :: log.drop dropped)
        = dropped % 2 ^ 64 := by
      rw [markerCount, hread]
      rfl
    refine ⟨fun m hm => hlog m (List.mem_of_mem_drop hm), fun m hm _ => ?_, ?_, ?_, fun hlt => ?_⟩
    · exact ⟨_, (Option.some.inj hm).symm⟩
    · rw [hwithout]
      exact List.drop_suffix dropped log
    · rw [hwithout, hcount, List.length_drop]
      congr 1
      omega
    · rw [hwithout, hcount, List.length_drop, Nat.mod_eq_of_lt (by omega)]
      omega

theorem windowed_run (log history : List Message) (es : List WindowEvent)
    (h : Windowed log history) (happ : ∀ m, .append m ∈ es → ¬ StartsLikeMarker m) :
    Windowed (log ++ appended es) (es.foldl (windowStep text) history) := by
  induction es generalizing log history with
  | nil => simpa [appended] using h
  | cons e es ih =>
    have hrest : ∀ m, .append m ∈ es → ¬ StartsLikeMarker m := fun m hm =>
      happ m (List.mem_cons_of_mem e hm)
    cases e with
    | append m =>
      have hstep := ih (log ++ [m]) (history ++ [m])
        (h.append (happ m List.mem_cons_self)) hrest
      rwa [List.append_assoc] at hstep
    | trim budgetTokens => exact ih log _ (h.trim budgetTokens) hrest

/-- **The marker of a window**: in every run of appends and trims, from messages that look like no
marker, at most the first message is one, and it says how many are gone. -/
theorem accounts_run (history : List Message) (es : List WindowEvent)
    (hstart : ∀ m ∈ history, ¬ StartsLikeMarker m)
    (happ : ∀ m, .append m ∈ es → ¬ StartsLikeMarker m) :
    Accounts (history ++ appended es) (es.foldl (windowStep text) history) :=
  (windowed_run history history es ⟨hstart, .inl rfl⟩ happ).accounts

/-- A prompt, an answer and another prompt, trimmed to a budget of one token. -/
theorem accounts_run_trimmed : Accounts
    ([.user [.text "one"]] ++ appended
      [.append (.assistant [.text "two"]), .append (.user [.text "three"]), .trim 1])
    ([.append (.assistant [.text "two"]), .append (.user [.text "three"]), .trim 1].foldl
      (windowStep fun _ => "") [.user [.text "one"]]) :=
  accounts_run _ _ (by simp [StartsLikeMarker, trimMarkerPrefix]) (by
    simp [StartsLikeMarker, trimMarkerPrefix])

end Accounts

end ApexOS.Agentd
