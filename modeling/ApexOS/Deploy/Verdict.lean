import ApexOS.Lib.Utf8
import ApexOS.Agentd.Goal
import Mathlib.Data.List.DropRight

/-!
# The reviewer's verdict

`parse_verdict` of `agentd/crates/agentd/src/self_update.rs`: the review of a self-update ends with
a line that says `VERDICT: SAFE` or `VERDICT: BLOCK`. The lines are read from the last. In each the
marker is looked for in an upper-cased copy, and what follows it is taken from the line itself, at
the offset that the marker has in the copy; what starts with neither word is passed over.

What a character becomes in upper case, and which characters are letters, are parameters.

## Main definitions

* `parseVerdict`: the scan, `none` where the program stops
* `FailsClosed`: what is promised of a text
* `Clear`: the texts that it holds for

## Main results

* `scan_append`: lines that are passed over change nothing
* `failsClosed_iff`: the promise is kept for the clear texts
-/

namespace ApexOS.Deploy.Verdict

open ApexOS.Agentd (isWhitespace)

/-- `ReviewVerdict`. -/
inductive ReviewVerdict
  | safe (note : String)
  | block (why : String)
  deriving DecidableEq, Repr

/-! ### Text -/

/-- `str::lines`. -/
def lines (text : List Char) : List (List Char) :=
  let pieces := text.splitOn '\n'
  let cut := fun piece : List Char =>
    if piece.getLast? = some '\r' then piece.dropLast else piece
  pieces.dropLast.map cut ++ (pieces.getLast?.toList.filter fun piece => piece ≠ [])

/-- `str::trim`. -/
def trim (cs : List Char) : List Char := (cs.dropWhile isWhitespace).rdropWhile isWhitespace

/-- `str::find`: the text before the first occurrence. -/
def before? (pattern : List Char) : List Char → Option (List Char)
  | [] => if pattern = [] then some [] else none
  | c :: cs =>
    if pattern.isPrefixOf (c :: cs) then some [] else (before? pattern cs).map (c :: ·)

/-- `head`. -/
def head (cs : List Char) (max : ℕ) : String :=
  if Utf8.len cs ≤ max then String.ofList cs
  else String.ofList (Utf8.takeUpTo max cs) ++
    ("\n…(diff truncated at " ++ toString max ++ " chars)…")

/-- The characters of markup before a line. -/
def markup : List Char := ['*', '#', '>', ' ']

def marker : List Char := "VERDICT:".toList

/-- A line without the markup before it. -/
def stripped (line : List Char) : List Char := (trim line).dropWhile (· ∈ markup)

/-! ### The scan -/

section

variable (upper : Char → List Char) (isAlphabetic : Char → Bool)

/-- What a line has after the marker. -/
inductive Reading
  | unmarked
  | panic
  | rest (cs : List Char)
  deriving DecidableEq, Repr

def reading (line : List Char) : Reading :=
  match before? marker ((stripped line).flatMap upper) with
  | none => .unmarked
  | some pre =>
    match Utf8.drop? (stripped line) (Utf8.len pre + Utf8.len marker) with
    | none => .panic
    | some cs => .rest (trim cs)

/-- `rest_up.starts_with(word)`. -/
def startsWith (word : String) (rest : List Char) : Bool :=
  word.toList.isPrefixOf (rest.flatMap upper)

/-- `why`. -/
def blockReason (rest : List Char) : String :=
  let why := trim ((rest.dropWhile isAlphabetic).dropWhile (· ∈ ['—', '-', ':', ' ']))
  if why = [] then "reviewer blocked the change" else String.ofList why

/-- The loop over the lines, from the last. -/
def scan (text : List Char) : List (List Char) → Option ReviewVerdict
  | [] => some (.block ("reviewer produced no parseable VERDICT line — failing closed. Tail: " ++
      head (trim text) 300))
  | line :: earlier =>
    match reading upper line with
    | .unmarked => scan text earlier
    | .panic => none
    | .rest cs =>
      if startsWith upper "SAFE" cs then some (.safe (String.ofList cs))
      else if startsWith upper "BLOCK" cs then some (.block (blockReason isAlphabetic cs))
      else scan text earlier

/-- `parse_verdict`. -/
def parseVerdict (text : List Char) : Option ReviewVerdict :=
  scan upper isAlphabetic text (lines text).reverse

/-! ### What is promised -/

/-- What follows the marker, in upper case. -/
def afterMarker (line : List Char) : Option (List Char) :=
  (before? marker ((stripped line).flatMap upper)).map fun pre =>
    ((stripped line).flatMap upper).drop (pre.length + marker.length)

def Marked (line : List Char) : Prop := afterMarker upper line ≠ none

/-- After the marker there is the word SAFE, apart from markup, and no other. -/
def SaysSafe (line : List Char) : Prop :=
  ∃ post, afterMarker upper line = some post ∧
    (post.dropWhile fun c => isWhitespace c || c ∈ markup).rdropWhile
      (fun c => isWhitespace c || c ∈ markup) = "SAFE".toList

/-- The last line with the marker says that it is safe. -/
def LastSaysSafe (ls : List (List Char)) : Prop :=
  ∃ earlier line later, ls = earlier ++ line :: later ∧ (∀ x ∈ later, ¬ Marked upper x) ∧
    SaysSafe upper line

/-- There is a verdict, and it is that it is safe only where the last line with the marker says
so. -/
def FailsClosed (text : List Char) : Prop :=
  ∃ v, parseVerdict upper isAlphabetic text = some v ∧
    ((∃ note, v = .safe note) → LastSaysSafe upper (lines text))

/-- The line has no verdict that the scan can tell. -/
def Skipped (line : List Char) : Prop :=
  reading upper line = .unmarked ∨ ∃ cs, reading upper line = .rest cs ∧
    startsWith upper "SAFE" cs = false ∧ startsWith upper "BLOCK" cs = false

/-- What follows the marker in the line, as the scan reads it, starts with SAFE. -/
def StartsSafe (line : List Char) : Prop :=
  ∃ cs, reading upper line = .rest cs ∧ startsWith upper "SAFE" cs = true

/-- The texts that keep the promise: up to the line that decides, the offset of the marker in the
copy is between two characters of the line; where the line that decides starts with SAFE there is
nothing else on it; and no line after it has another verdict. -/
structure Clear (text : List Char) : Prop where
  between : ∀ earlier line later, lines text = earlier ++ line :: later →
    (∀ x ∈ later, Skipped upper x) → reading upper line ≠ .panic
  alone : ∀ earlier line later, lines text = earlier ++ line :: later →
    (∀ x ∈ later, ¬ Marked upper x) → StartsSafe upper line → SaysSafe upper line
  last : ∀ earlier line mid other later, lines text = earlier ++ line :: (mid ++ other :: later) →
    (∀ x ∈ mid ++ other :: later, Skipped upper x) → StartsSafe upper line →
    (∀ x ∈ later, ¬ Marked upper x) → Marked upper other → SaysSafe upper other

end

section

variable {upper : Char → List Char} {isAlphabetic : Char → Bool} {line text : List Char}
  {ls later : List (List Char)}

theorem reading_eq_unmarked_iff : reading upper line = .unmarked ↔ ¬ Marked upper line := by
  rw [Marked, not_not, afterMarker, Option.map_eq_none_iff, reading]
  cases before? marker ((stripped line).flatMap upper) with
  | none => simp
  | some pre =>
    dsimp only
    cases Utf8.drop? (stripped line) (Utf8.len pre + Utf8.len marker) <;> simp

theorem StartsSafe.marked (h : StartsSafe upper line) : Marked upper line := by
  obtain ⟨cs, hcs, -⟩ := h
  by_contra hnot
  rw [reading_eq_unmarked_iff.mpr hnot] at hcs
  cases hcs

theorem before?_eq_some {pattern cs pre : List Char} (h : before? pattern cs = some pre) :
    ∃ post, cs = pre ++ pattern ++ post := by
  induction cs generalizing pre with
  | nil =>
    rw [before?] at h
    split at h
    · rename_i hnil
      cases h
      exact ⟨[], by simp [hnil]⟩
    · cases h
  | cons c cs ih =>
    rw [before?] at h
    split at h
    · rename_i hprefix
      cases h
      obtain ⟨post, hpost⟩ := List.isPrefixOf_iff_prefix.mp hprefix
      exact ⟨post, hpost.symm⟩
    · obtain ⟨pre, hpre, rfl⟩ := Option.map_eq_some_iff.mp h
      obtain ⟨post, rfl⟩ := ih hpre
      exact ⟨post, rfl⟩

/-- Where every character is of one byte, in either case, the scan does not stop the program. -/
theorem reading_ne_panic (h : ∀ c ∈ line, c.utf8Size = 1 ∧ Utf8.len (upper c) = 1) :
    reading upper line ≠ .panic := by
  have hstripped : ∀ c ∈ stripped line, c.utf8Size = 1 ∧ Utf8.len (upper c) = 1 := fun c hc =>
    h c ((List.dropWhile_subset _ ((List.rdropWhile_prefix _ _).subset
      ((List.dropWhile_sublist _).subset hc))))
  have hlen : ∀ cs : List Char, (∀ c ∈ cs, c.utf8Size = 1 ∧ Utf8.len (upper c) = 1) →
      Utf8.len (cs.flatMap upper) = Utf8.len cs := by
    intro cs hcs
    induction cs with
    | nil => rfl
    | cons c cs ih =>
      obtain ⟨hc, hupper⟩ := hcs c List.mem_cons_self
      rw [List.flatMap_cons, Utf8.len_append, Utf8.len_cons,
        ih fun d hd => hcs d (List.mem_cons_of_mem _ hd), hc, hupper]
  rw [reading]
  cases hbefore : before? marker ((stripped line).flatMap upper) with
  | none => simp
  | some pre =>
    obtain ⟨post, hpost⟩ := before?_eq_some hbefore
    have hle : Utf8.len pre + Utf8.len marker ≤ Utf8.len (stripped line) := by
      rw [← hlen _ hstripped, hpost, Utf8.len_append, Utf8.len_append]
      omega
    obtain ⟨cs, hcs⟩ := Option.isSome_iff_exists.mp
      (Utf8.drop?_isSome_of_all (fun c hc => (hstripped c hc).1) hle)
    simp [hcs]

example : reading (fun c => if c = 'ŉ' then ['ʼ', 'N'] else [c.toUpper]) "ŉVERDICT:—".toList
    = .panic := by decide

/-- Lines that are passed over change nothing. -/
theorem scan_append (h : ∀ x ∈ later, Skipped upper x) (ls : List (List Char)) :
    scan upper isAlphabetic text (later ++ ls) = scan upper isAlphabetic text ls := by
  induction later with
  | nil => rfl
  | cons x later ih =>
    have hih := ih fun y hy => h y (List.mem_cons_of_mem _ hy)
    obtain hx | ⟨cs, hx, hsafe, hblock⟩ := h x List.mem_cons_self
    · simpa [scan, hx] using hih
    · simpa [scan, hx, hsafe, hblock] using hih

/-- What the scan comes to. -/
theorem scan_cases (upper : Char → List Char) (isAlphabetic : Char → Bool) (text : List Char)
    (ls : List (List Char)) :
    (∃ why, scan upper isAlphabetic text ls = some (.block why)) ∨
    ∃ later line earlier, ls = later ++ line :: earlier ∧ (∀ x ∈ later, Skipped upper x) ∧
      (reading upper line = .panic ∨ StartsSafe upper line) := by
  induction ls with
  | nil => exact .inl ⟨_, rfl⟩
  | cons x ls ih =>
    have hskip : Skipped upper x → scan upper isAlphabetic text (x :: ls)
        = scan upper isAlphabetic text ls := fun hx =>
      scan_append (fun y (hy : y ∈ [x]) => (List.mem_singleton.mp hy) ▸ hx) ls
    have hcons : Skipped upper x → (∃ later line earlier, ls = later ++ line :: earlier ∧
        (∀ y ∈ later, Skipped upper y) ∧ (reading upper line = .panic ∨ StartsSafe upper line)) →
        ∃ later line earlier, x :: ls = later ++ line :: earlier ∧
        (∀ y ∈ later, Skipped upper y) ∧ (reading upper line = .panic ∨ StartsSafe upper line) := by
      rintro hx ⟨later, line, earlier, rfl, hlater, hline⟩
      exact ⟨x :: later, line, earlier, rfl, List.forall_mem_cons.mpr ⟨hx, hlater⟩, hline⟩
    cases hx : reading upper x with
    | unmarked => exact (hskip (.inl hx)) ▸ ih.imp id (hcons (.inl hx))
    | panic => exact .inr ⟨[], x, ls, rfl, by simp, .inl hx⟩
    | rest cs =>
      cases hsafe : startsWith upper "SAFE" cs with
      | true => exact .inr ⟨[], x, ls, rfl, by simp, .inr ⟨cs, hx, hsafe⟩⟩
      | false =>
        cases hblock : startsWith upper "BLOCK" cs with
        | true => exact .inl ⟨blockReason isAlphabetic cs, by simp [scan, hx, hsafe, hblock]⟩
        | false =>
          have hx' : Skipped upper x := .inr ⟨cs, hx, hsafe, hblock⟩
          exact (hskip hx') ▸ ih.imp id (hcons hx')

/-- There is one last line with the marker. -/
theorem last_marked_unique {earlier earlier' later later' : List (List Char)}
    {line line' : List Char} (heq : earlier ++ line :: later = earlier' ++ line' :: later')
    (hline : Marked upper line) (hlater : ∀ x ∈ later, ¬ Marked upper x)
    (hline' : Marked upper line') (hlater' : ∀ x ∈ later', ¬ Marked upper x) : line = line' := by
  obtain ⟨mid, rfl, hmid⟩ | ⟨mid, rfl, hmid⟩ := List.append_eq_append_iff.mp heq
  · cases mid with
    | nil => exact (List.cons.inj hmid).1
    | cons x mid =>
      obtain ⟨rfl, rfl⟩ := List.cons.inj hmid
      exact absurd hline' (hlater line' (List.mem_append_right _ List.mem_cons_self))
  · cases mid with
    | nil => exact (List.cons.inj hmid).1.symm
    | cons x mid =>
      obtain ⟨rfl, rfl⟩ := List.cons.inj hmid
      exact absurd hline (hlater' line (List.mem_append_right _ List.mem_cons_self))

/-- Where a line has the marker, one of them is the last. -/
theorem exists_last_marked (h : ∃ x ∈ ls, Marked upper x) :
    ∃ earlier line later, ls = earlier ++ line :: later ∧ Marked upper line ∧
      ∀ x ∈ later, ¬ Marked upper x := by
  induction ls with
  | nil => obtain ⟨x, hx, -⟩ := h; cases hx
  | cons x ls ih =>
    by_cases hls : ∃ y ∈ ls, Marked upper y
    · obtain ⟨earlier, line, later, rfl, hline, hlater⟩ := ih hls
      exact ⟨x :: earlier, line, later, rfl, hline, hlater⟩
    · obtain ⟨y, hy, hmarked⟩ := h
      obtain rfl | hy := List.mem_cons.mp hy
      · exact ⟨[], y, ls, rfl, hmarked, fun z hz hm => hls ⟨z, hz, hm⟩⟩
      · exact absurd ⟨y, hy, hmarked⟩ hls

theorem marked_of_saysSafe (h : SaysSafe upper line) : Marked upper line := by
  obtain ⟨post, hpost, -⟩ := h
  rw [Marked, hpost]
  simp

/-- What is said of the lines up to one that decides. -/
theorem parseVerdict_of_decides {earlier : List (List Char)}
    (hlines : lines text = earlier ++ line :: later) (hlater : ∀ x ∈ later, Skipped upper x) :
    parseVerdict upper isAlphabetic text
      = scan upper isAlphabetic text (line :: earlier.reverse) := by
  have hreverse : (lines text).reverse = later.reverse ++ line :: earlier.reverse := by
    simp [hlines]
  rw [parseVerdict, hreverse, scan_append fun x hx => hlater x (List.mem_reverse.mp hx)]

theorem StartsSafe.scan_eq (h : StartsSafe upper line) (text : List Char)
    (earlier : List (List Char)) :
    ∃ note, scan upper isAlphabetic text (line :: earlier) = some (.safe note) := by
  obtain ⟨cs, hcs, hsafe⟩ := h
  exact ⟨String.ofList cs, by simp [scan, hcs, hsafe]⟩

/-- **The verdict fails closed** exactly for the clear texts. -/
theorem failsClosed_iff (upper : Char → List Char) (isAlphabetic : Char → Bool)
    (text : List Char) : FailsClosed upper isAlphabetic text ↔ Clear upper text := by
  constructor
  · rintro ⟨v, hv, hsafe⟩
    have hlast : ∀ {earlier line later}, lines text = earlier ++ line :: later →
        (∀ x ∈ later, Skipped upper x) → StartsSafe upper line →
        LastSaysSafe upper (lines text) := by
      intro earlier line later hlines hlater hstarts
      obtain ⟨note, hnote⟩ := hstarts.scan_eq text earlier.reverse
      rw [parseVerdict_of_decides hlines hlater, hnote] at hv
      exact hsafe ⟨note, (Option.some.inj hv).symm⟩
    refine ⟨?_, ?_, ?_⟩
    · intro earlier line later hlines hlater hpanic
      rw [parseVerdict_of_decides hlines hlater] at hv
      simp [scan, hpanic] at hv
    · intro earlier line later hlines hlater hstarts
      obtain ⟨e', l', r', hsplit, hr', hsays⟩ := hlast hlines
        (fun x hx => .inl (reading_eq_unmarked_iff.mpr (hlater x hx))) hstarts
      have heq := last_marked_unique (hlines.symm.trans hsplit) hstarts.marked hlater
        (marked_of_saysSafe hsays) hr'
      exact heq ▸ hsays
    · intro earlier line mid other later hlines hskip hstarts hlater hmarked
      obtain ⟨e', l', r', hsplit, hr', hsays⟩ := hlast hlines hskip hstarts
      have hlines' : lines text = (earlier ++ line :: mid) ++ other :: later := by
        simpa using hlines
      have heq := last_marked_unique (hlines'.symm.trans hsplit) hmarked hlater
        (marked_of_saysSafe hsays) hr'
      exact heq ▸ hsays
  · intro h
    obtain ⟨why, hwhy⟩ | ⟨later, line, earlier, hreverse, hlater, hdecides⟩ :=
      scan_cases upper isAlphabetic text (lines text).reverse
    · exact ⟨_, hwhy, fun ⟨note, hnote⟩ => by cases hnote⟩
    · have hlines : lines text = earlier.reverse ++ line :: later.reverse := by
        rw [← List.reverse_reverse (lines text), hreverse]
        simp
      have hlater' : ∀ x ∈ later.reverse, Skipped upper x := fun x hx =>
        hlater x (List.mem_reverse.mp hx)
      obtain hpanic | hstarts := hdecides
      · exact absurd hpanic (h.between _ _ _ hlines hlater')
      · obtain ⟨note, hnote⟩ := hstarts.scan_eq text earlier
        refine ⟨.safe note, ?_, fun _ => ?_⟩
        · rw [parseVerdict_of_decides hlines hlater', List.reverse_reverse, hnote]
        · by_cases hmarked : ∃ x ∈ later.reverse, Marked upper x
          · obtain ⟨mid, other, rest, hsplit, hother, hrest⟩ := exists_last_marked hmarked
            refine ⟨earlier.reverse ++ line :: mid, other, rest, by simp [hlines, hsplit], hrest,
              ?_⟩
            exact h.last _ _ _ _ _ (hlines.trans (by rw [hsplit])) (hsplit ▸ hlater') hstarts
              hrest hother
          · have hnone : ∀ x ∈ later.reverse, ¬ Marked upper x := fun x hx hm =>
              hmarked ⟨x, hx, hm⟩
            exact ⟨_, _, _, hlines, hnone, h.alone _ _ _ hlines hnone hstarts⟩

end

/-- Upper case, for the letters of ASCII. -/
def asciiUpper (c : Char) : List Char := [c.toUpper]

/-- A verdict that is not to be told is passed over, and one before it is taken. -/
theorem not_failsClosed :
    ¬ FailsClosed asciiUpper Char.isAlpha "VERDICT: SAFE\nVERDICT: UNSAFE".toList := by
  rintro ⟨v, hv, hsafe⟩
  have hlines : lines "VERDICT: SAFE\nVERDICT: UNSAFE".toList
      = ["VERDICT: SAFE".toList] ++ "VERDICT: UNSAFE".toList :: [] := by decide
  have hverdict : parseVerdict asciiUpper Char.isAlpha "VERDICT: SAFE\nVERDICT: UNSAFE".toList
      = some (.safe "SAFE") := by decide
  obtain ⟨earlier, line, later, hsplit, hlater, hsays⟩ :=
    hsafe ⟨"SAFE", Option.some.inj (hv.symm.trans hverdict)⟩
  have hmarked : Marked asciiUpper "VERDICT: UNSAFE".toList := by
    rw [Marked]
    decide
  have heq := last_marked_unique (hlines.symm.trans hsplit) hmarked (by simp)
    (marked_of_saysSafe hsays) hlater
  obtain ⟨post, hpost, hword⟩ := heq ▸ hsays
  have hpost' : afterMarker asciiUpper "VERDICT: UNSAFE".toList = some " UNSAFE".toList := by
    decide
  obtain rfl := Option.some.inj (hpost'.symm.trans hpost)
  revert hword
  decide

end ApexOS.Deploy.Verdict
