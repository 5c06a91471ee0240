import ApexOS.Deploy.Verdict

/-!
# Pages without their tags

`strip_html` of `cerebro/src/ingest.rs`. The page is gone through character by character; tags are
told apart in a lower-cased copy, which is cut at the offset that the character has in the page.
Where a character has another length in lower case, the copy is cut somewhere else, or the program
stops.

What the characters become in lower case is a parameter: an ASCII character becomes its own lower
case, and any other begins with something that is in no tag.

## Main definitions

* `scan`, `stripHtml`: the loop, and the entities after it
* `visible`: the characters outside tags, scripts and styles
* `looks`, `Even`: where tags are told apart, and the pages that are cut there as their copies are

## Main results

* `isPrefixOf_flatten_iff`, `before?_flatten`: the copy has a tag where the page has one
* `scan_eq_visible`: the loop from any character on
* `stripHtml_eq_visible`: an even page is stripped as it should be
-/

namespace ApexOS.Cerebro.Html

open ApexOS.Deploy.Verdict (before? before?_eq_some)

abbrev Text := List Char

/-! ### The program -/

/-- `replace`, with what is left to pass over of an occurrence. -/
def replace (pattern by_ : Text) : ℕ → Text → Text
  | _, [] => []
  | n + 1, _ :: cs => replace pattern by_ n cs
  | 0, c :: cs =>
    if pattern.isPrefixOf (c :: cs) then by_ ++ replace pattern by_ (pattern.length - 1) cs
    else c :: replace pattern by_ 0 cs

/-- The entities that are decoded, in this order. -/
def entities : List (String × String) :=
  [("&nbsp;", " "), ("&amp;", "&"), ("&lt;", "<"), ("&gt;", ">"), ("&quot;", "\""), ("&#39;", "'")]

def decodeEntities (out : Text) : Text :=
  entities.foldl (fun out e => replace e.1.toList e.2.toList 0 out) out

def scriptOpen : Text := "<script".toList
def scriptClose : Text := "</script>".toList
def styleOpen : Text := "<style".toList
def styleClose : Text := "</style>".toList

/-- Block-level closes read better as paragraph breaks. -/
def blocks : List Text := ["</p>".toList, "</div>".toList, "</h".toList, "<br".toList]

/-- What a tag leaves, if the text from it on starts so. -/
def breaks (startsWith : Text → Bool) : Text := if blocks.any startsWith then ['\n', '\n'] else []

/-- The loop of `strip_html`, from the character at `idx`. Without a result the program stops. -/
def scan (lower : Text) : (idx i : ℕ) → (skipUntil : Option Text) → Text → Option Text
  | _, _, _, [] => some []
  | idx, i, skipUntil, c :: rest =>
    if idx < i then scan lower (idx + c.utf8Size) i skipUntil rest
    else match skipUntil with
      | some close =>
        match Utf8.drop? lower idx with
        | none => none
        | some tail =>
          match before? close tail with
          | none => some []
          | some front =>
            scan lower (idx + c.utf8Size) (idx + Utf8.len front + Utf8.len close) none rest
      | none =>
        if c = '<' then
          match Utf8.drop? lower idx with
          | none => none
          | some tail =>
            if scriptOpen.isPrefixOf tail then
              scan lower (idx + c.utf8Size) i (some scriptClose) rest
            else if styleOpen.isPrefixOf tail then
              scan lower (idx + c.utf8Size) i (some styleClose) rest
            else
              let out := breaks fun block => block.isPrefixOf tail
              if '>' ∈ rest then
                (scan lower (idx + c.utf8Size)
                  (idx + Utf8.len (c :: rest.takeWhile (· ≠ '>')) + 1) none rest).map (out ++ ·)
              else some out
        else (scan lower (idx + c.utf8Size) i none rest).map (c :: ·)

/-- `strip_html`; `images` are what the characters become in lower case. -/
def stripHtml (images : Text → List Text) (html : Text) : Option Text :=
  (scan (images html).flatten 0 0 none html).map decodeEntities

/-! ### The purpose -/

/-- Without regard to ASCII case. -/
def asciiLower (c : Char) : Char := if 'A' ≤ c ∧ c ≤ 'Z' then Char.ofNat (c.toNat + 32) else c

def startsWith (text pattern : Text) : Bool := pattern.isPrefixOf (text.map asciiLower)

/-- In the text, in a tag, or before the close of a script or a style. -/
inductive Mode
  | text
  | tag
  | raw (close : Text)
  deriving DecidableEq, Repr

/-- How it goes on from a tag that begins here. -/
def modeAt (text : Text) : Mode :=
  if startsWith text scriptOpen then .raw scriptClose
  else if startsWith text styleOpen then .raw styleClose
  else .tag

/-- **The characters outside tags, scripts and styles**, with paragraph breaks for some tags. -/
def visible : Mode → Text → Text
  | _, [] => []
  | .text, c :: rest =>
    if c = '<' then
      (if modeAt (c :: rest) = .tag then breaks (startsWith (c :: rest)) else []) ++
        visible (modeAt (c :: rest)) rest
    else c :: visible .text rest
  | .tag, c :: rest => if c = '>' then visible .text rest else visible .tag rest
  | .raw close, c :: rest =>
    if startsWith (c :: rest) close then visible .tag rest else visible (.raw close) rest

/-- The places at which a tag begins, or a script or a style ends. -/
def looks : Mode → ℕ → Text → List ℕ
  | _, _, [] => []
  | .text, n, c :: rest =>
    if c = '<' then n :: looks (modeAt (c :: rest)) (n + 1) rest else looks .text (n + 1) rest
  | .tag, n, c :: rest => if c = '>' then looks .text (n + 1) rest else looks .tag (n + 1) rest
  | .raw close, n, c :: rest =>
    if startsWith (c :: rest) close then n :: looks .tag (n + 1) rest
    else looks (.raw close) (n + 1) rest

/-- Up to a place, the page and its copy have the same number of bytes. -/
def Aligned (images : List Text) (html : Text) (n : ℕ) : Prop :=
  Utf8.len (images.take n).flatten = Utf8.len (html.take n)

/-- So they have up to every place that is looked at. -/
def Even (images : Text → List Text) (html : Text) : Prop :=
  ∀ n ∈ looks .text 0 html, Aligned (images html) html n

instance (images : List Text) (html : Text) (n : ℕ) : Decidable (Aligned images html n) :=
  inferInstanceAs (Decidable (_ = _))

instance (images : Text → List Text) (html : Text) : Decidable (Even images html) :=
  inferInstanceAs (Decidable (∀ n ∈ _, _))

/-! ### Lower case -/

/-- What another character than ASCII becomes: something else than ASCII, an `i` with a dot above,
or a `k`. -/
def Foreign (w : Text) : Prop :=
  '<' ∉ w ∧ ((∃ d rest, w = d :: rest ∧ 128 ≤ d.toNat) ∨
    (∃ d rest, w = 'i' :: d :: rest ∧ 128 ≤ d.toNat) ∨ w = ['k'])

/-- What a character becomes. -/
def Image (c : Char) (w : Text) : Prop := if c.toNat < 128 then w = [asciiLower c] else Foreign w

/-- A text of which the copy has no more than the page: it is ASCII, has no `k`, and does not end in
an `i`. -/
structure Plain (p : Text) : Prop where
  ascii : ∀ c ∈ p, c.toNat < 128 ∧ c ≠ 'k'
  last : p.getLast? ≠ some 'i'

theorem Plain.tail {c : Char} {p : Text} (h : Plain (c :: p)) : Plain p where
  ascii d hd := h.ascii d (List.mem_cons_of_mem _ hd)
  last hlast := by
    cases p with
    | nil => cases hlast
    | cons d p => exact h.last (by rw [List.getLast?_cons_cons]; exact hlast)

theorem asciiLower_of_le {c : Char} (hc : 128 ≤ c.toNat) : asciiLower c = c := by
  rw [asciiLower, if_neg]
  rintro ⟨-, hz⟩
  have : c.toNat ≤ 'Z'.toNat := hz
  have hZ : 'Z'.toNat = 90 := rfl
  omega

/-- **The copy starts with a tag** where the page does. -/
theorem isPrefixOf_flatten_iff {p : Text} (hp : Plain p) : ∀ {text : Text} {images : List Text},
    List.Forall₂ Image text images → (p.isPrefixOf images.flatten = startsWith text p) := by
  induction p with
  | nil => exact fun _ => rfl
  | cons x p ih =>
    intro text images h
    rw [startsWith]
    cases h with
    | nil => rfl
    | @cons c w text images hc hrest =>
      rw [List.flatten_cons, List.map_cons]
      rw [Image] at hc
      split at hc
      · rw [hc, List.singleton_append, List.isPrefixOf_cons_cons, List.isPrefixOf_cons_cons,
          ih hp.tail hrest, startsWith]
      · rename_i hforeign
        have hx := hp.ascii x List.mem_cons_self
        have hright : (x :: p).isPrefixOf (asciiLower c :: text.map asciiLower) = false := by
          rw [List.isPrefixOf_cons_cons, asciiLower_of_le (Nat.le_of_not_lt hforeign)]
          have : (x == c) = false := beq_false_of_ne fun heq => hforeign (heq ▸ hx.1)
          rw [this, Bool.false_and]
        rw [hright]
        obtain ⟨-, ⟨d, w, rfl, hd⟩ | ⟨d, w, rfl, hd⟩ | rfl⟩ := hc
        · have : (x == d) = false := beq_false_of_ne fun heq => by rw [heq] at hx; omega
          rw [List.cons_append, List.isPrefixOf_cons_cons, this, Bool.false_and]
        · rw [List.cons_append, List.isPrefixOf_cons_cons]
          cases p with
          | nil =>
            have : (x == 'i') = false := beq_false_of_ne fun heq => hp.last (by rw [heq]; rfl)
            rw [this, Bool.false_and]
          | cons y p =>
            have hy := (hp.ascii y (by simp)).1
            have : (y == d) = false := beq_false_of_ne fun heq => by rw [heq] at hy; omega
            rw [List.cons_append, List.isPrefixOf_cons_cons, this, Bool.false_and, Bool.and_false]
        · have : (x == 'k') = false := beq_false_of_ne hx.2
          rw [List.singleton_append, List.isPrefixOf_cons_cons, this, Bool.false_and]

theorem utf8Size_asciiLower (c : Char) : (asciiLower c).utf8Size = c.utf8Size := by
  rw [asciiLower]
  split
  · rename_i h
    have hall : ∀ n < 91, 65 ≤ n → (Char.ofNat (n + 32)).utf8Size = (Char.ofNat n).utf8Size := by
      decide
    have hle : 65 ≤ c.toNat := h.1
    have hlt : c.toNat ≤ 90 := h.2
    simpa using hall c.toNat (by omega) hle
  · rfl

theorem len_map_asciiLower (text : Text) : Utf8.len (text.map asciiLower) = Utf8.len text := by
  induction text with
  | nil => rfl
  | cons c text ih => rw [List.map_cons, Utf8.len_cons, Utf8.len_cons, utf8Size_asciiLower, ih]

/-- A character that is its own lower case and no letter is the lower case of no other. -/
theorem asciiLower_eq_gt {c : Char} (h : asciiLower c = '>') : c = '>' := by
  rw [asciiLower] at h
  split at h
  · rename_i hc
    have hall : ∀ n < 91, 65 ≤ n → Char.ofNat (n + 32) ≠ '>' := by decide
    have hle : 65 ≤ c.toNat := hc.1
    have hlt : c.toNat ≤ 90 := hc.2
    exact absurd h (hall c.toNat (by omega) hle)
  · exact h

theorem before?_append {p w : Text} (hp : p.head? = some '<') (hw : '<' ∉ w) (rest : Text) :
    before? p (w ++ rest) = (before? p rest).map (w ++ ·) := by
  induction w with
  | nil => simp
  | cons d w ih =>
    have hd : p.isPrefixOf (d :: (w ++ rest)) = false := by
      cases p with
      | nil => cases hp
      | cons x p =>
        obtain rfl : x = '<' := Option.some.inj hp
        have hne : ('<' == d) = false := beq_false_of_ne fun heq => hw (by
          rw [heq]
          exact List.mem_cons_self)
        rw [List.isPrefixOf_cons_cons, hne, Bool.false_and]
    rw [List.cons_append, before?, hd, if_neg Bool.false_ne_true,
      ih fun h => hw (List.mem_cons_of_mem _ h), Option.map_map]
    rfl

/-- **The copy has its first tag** where the page has. -/
theorem before?_flatten {p : Text} (hp : Plain p) (hstart : p.head? = some '<') {text : Text}
    {images : List Text} (h : List.Forall₂ Image text images) :
    before? p images.flatten = (before? p (text.map asciiLower)).map fun front =>
      (images.take front.length).flatten := by
  induction h with
  | nil =>
    have hne : p ≠ [] := fun hnil => by simp [hnil] at hstart
    simp [before?, hne]
  | @cons c w text images hc hrest ih =>
    have hprefix := isPrefixOf_flatten_iff hp (List.Forall₂.cons hc hrest)
    obtain ⟨d, w', rfl, hw'⟩ : ∃ d w', w = d :: w' ∧ '<' ∉ w' := by
      rw [Image] at hc
      split at hc
      · exact ⟨_, [], hc, by simp⟩
      · obtain ⟨hlt, ⟨d, w, rfl, -⟩ | ⟨d, w, rfl, -⟩ | rfl⟩ := hc
        · exact ⟨d, w, rfl, fun h => hlt (List.mem_cons_of_mem _ h)⟩
        · exact ⟨'i', d :: w, rfl, fun h => hlt (List.mem_cons_of_mem _ h)⟩
        · exact ⟨'k', [], rfl, by simp⟩
    rw [startsWith] at hprefix
    rw [List.flatten_cons, List.cons_append] at hprefix ⊢
    rw [List.map_cons] at hprefix ⊢
    rw [before?, before?, hprefix]
    split
    · rfl
    · rw [before?_append hstart hw', ih, Option.map_map, Option.map_map, Option.map_map]
      rfl

/-! ### The purpose, tag by tag -/

theorem visible_tag {a : Text} (ha : '>' ∉ a) (n : ℕ) (b : Text) :
    visible .tag (a ++ '>' :: b) = visible .text b ∧
      looks .tag n (a ++ '>' :: b) = looks .text (n + a.length + 1) b := by
  induction a generalizing n with
  | nil => simp [visible, looks]
  | cons c a ih =>
    have hc : c ≠ '>' := fun h => ha (h ▸ List.mem_cons_self)
    obtain ⟨hvisible, hlooks⟩ := ih (fun h => ha (List.mem_cons_of_mem _ h)) (n + 1)
    rw [List.cons_append, visible, looks, if_neg hc, if_neg hc, hvisible, hlooks,
      List.length_cons]
    exact ⟨rfl, by congr 1; omega⟩

/-- A tag that does not end leaves nothing. -/
theorem visible_tag_of_not_mem {a : Text} (ha : '>' ∉ a) : visible .tag a = [] := by
  induction a with
  | nil => rfl
  | cons c a ih =>
    have hc : c ≠ '>' := fun h => ha (h ▸ List.mem_cons_self)
    rw [visible, if_neg hc]
    exact ih fun h => ha (List.mem_cons_of_mem _ h)

/-- Nor does a script or a style that is not closed. -/
theorem visible_raw_of_none {close text : Text} (h : before? close (text.map asciiLower) = none) :
    visible (.raw close) text = [] := by
  induction text with
  | nil => rfl
  | cons c text ih =>
    rw [List.map_cons, before?] at h
    split at h
    · cases h
    · rename_i hnot
      have hnot : ¬ startsWith (c :: text) close = true := hnot
      rw [visible, if_neg hnot]
      exact ih (Option.map_eq_none_iff.mp h)

/-- What closes a script or a style: a tag. -/
def Closes (close : Text) : Prop := ∃ q, close = '<' :: (q ++ ['>']) ∧ '>' ∉ q ∧ Plain close

/-- The close that a page begins with, as the page has it: its `>` is the first. -/
theorem exists_close {close text : Text} (hclose : Closes close)
    (h : startsWith text close = true) : ∃ x t b, text = x :: (t ++ '>' :: b) ∧ '>' ∉ t ∧
      (x :: t ++ ['>']).map asciiLower = close := by
  obtain ⟨post, hpost⟩ := List.isPrefixOf_iff_prefix.mp h
  obtain ⟨t, b, rfl, ht, -⟩ := List.map_eq_append_iff.mp hpost.symm
  obtain ⟨q, hq, hgt, -⟩ := hclose
  obtain ⟨t₁, t₂, rfl, ht₁, ht₂⟩ := List.map_eq_append_iff.mp
    (show t.map asciiLower = ('<' :: q) ++ ['>'] by rw [ht, hq]; rfl)
  obtain ⟨g, rfl, hg⟩ : ∃ g, t₂ = [g] ∧ asciiLower g = '>' := by
    cases t₂ with
    | nil => cases ht₂
    | cons g t₂ =>
      obtain ⟨hg, hnil⟩ := List.cons.inj ht₂
      exact ⟨g, by rw [List.map_eq_nil_iff.mp hnil], hg⟩
  obtain rfl := asciiLower_eq_gt hg
  cases t₁ with
  | nil => cases ht₁
  | cons x t₁ =>
    obtain ⟨-, htail⟩ := List.cons.inj ht₁
    refine ⟨x, t₁, b, by simp, fun hmem => hgt ?_, ht⟩
    rw [← htail]
    exact List.mem_map.mpr ⟨'>', hmem, by decide⟩

theorem visible_raw_of_some {close : Text} (hclose : Closes close) {text front : Text} (n : ℕ)
    (h : before? close (text.map asciiLower) = some front) : ∃ a t b, text = a ++ (t ++ b) ∧
      a.length = front.length ∧ Utf8.len t = Utf8.len close ∧
      visible (.raw close) text = visible .text b ∧
      looks (.raw close) n text =
        (n + a.length) :: looks .text (n + a.length + t.length) b := by
  induction text generalizing n front with
  | nil =>
    obtain ⟨q, rfl, -⟩ := hclose
    simp [before?] at h
  | cons c text ih =>
    rw [List.map_cons, before?] at h
    split at h
    · rename_i hstarts
      have hstartsWith : startsWith (c :: text) close = true := hstarts
      obtain rfl := Option.some.inj h
      obtain ⟨x, t, b, hsplit, hno, ht⟩ := exists_close hclose hstartsWith
      obtain ⟨rfl, rfl⟩ := List.cons.inj hsplit
      obtain ⟨hvisible, hlooks⟩ := visible_tag hno (n + 1) b
      refine ⟨[], c :: t ++ ['>'], b, by simp, rfl, ?_, ?_, ?_⟩
      · rw [← len_map_asciiLower, ht]
      · rw [visible, if_pos hstartsWith, hvisible]
      · rw [looks, if_pos hstartsWith, hlooks]
        simp only [List.length_nil, List.length_append, List.length_cons]
        congr 2
        omega
    · rename_i hnot
      have hnot : ¬ startsWith (c :: text) close = true := hnot
      obtain ⟨front, hfront, rfl⟩ := Option.map_eq_some_iff.mp h
      obtain ⟨a, t, b, rfl, ha, ht, hvisible, hlooks⟩ := ih (n + 1) hfront
      refine ⟨c :: a, t, b, rfl, by simp [ha], ht, ?_, ?_⟩
      · rw [visible, if_neg hnot, hvisible]
      · rw [looks, if_neg hnot, hlooks, List.length_cons, Nat.add_right_comm n 1, Nat.add_assoc n]

/-! ### The tags -/

/-- Whether a text is plain. -/
def isPlain (p : Text) : Bool :=
  p.all (fun c => decide (c.toNat < 128) && c != 'k') && p.getLast? != some 'i'

theorem plain_of_isPlain {p : Text} (h : isPlain p = true) : Plain p := by
  rw [isPlain, Bool.and_eq_true, List.all_eq_true] at h
  refine ⟨fun c hc => ?_, by simpa using h.2⟩
  have := h.1 c hc
  rw [Bool.and_eq_true] at this
  exact ⟨of_decide_eq_true this.1, by simpa using this.2⟩

theorem plain_scriptOpen : Plain scriptOpen := plain_of_isPlain (by decide)

theorem plain_styleOpen : Plain styleOpen := plain_of_isPlain (by decide)

theorem plain_blocks : ∀ block ∈ blocks, Plain block := fun block hblock =>
  plain_of_isPlain (List.all_eq_true.mp (show blocks.all isPlain = true by decide) block hblock)

theorem closes_scriptClose : Closes scriptClose :=
  ⟨"/script".toList, rfl, by decide, plain_of_isPlain (by decide)⟩

theorem closes_styleClose : Closes styleClose :=
  ⟨"/style".toList, rfl, by decide, plain_of_isPlain (by decide)⟩

/-! ### The loop -/

/-- What is passed over is passed over. -/
theorem scan_skip (lower : Text) (b : Text) {a : Text} {idx i : ℕ} (h : idx + Utf8.len a = i) :
    scan lower idx i none (a ++ b) = scan lower i i none b := by
  induction a generalizing idx with
  | nil =>
    obtain rfl : idx = i := h
    rfl
  | cons c a ih =>
    rw [Utf8.len_cons] at h
    have := c.utf8Size_pos
    rw [List.cons_append, scan, if_pos (by omega), ih (by omega)]

/-- Where the page and its copy have the same number of bytes, both are cut at a character. -/
theorem drop?_of_aligned {ws : List Text} {front rest : Text}
    (h : Aligned ws (front ++ rest) front.length) :
    Utf8.drop? ws.flatten (Utf8.len front) = some (ws.drop front.length).flatten := by
  rw [Aligned, List.take_left' rfl] at h
  rw [Utf8.drop?_eq_some_iff]
  exact ⟨(ws.take front.length).flatten,
    by rw [← List.flatten_append, List.take_append_drop], h⟩

theorem forall₂_drop {ws : List Text} {front rest : Text}
    (h : List.Forall₂ Image (front ++ rest) ws) :
    List.Forall₂ Image rest (ws.drop front.length) := by
  have := List.forall₂_drop front.length h
  rwa [List.drop_left' rfl] at this

section

variable {html : Text} {ws : List Text}

/-- From here on the program leaves what it should, if it is at this place in the text. -/
def Stripped (ws : List Text) (html front rest : Text) : Prop :=
  html = front ++ rest → (∀ n ∈ looks .text front.length rest, Aligned ws html n) →
    ∀ i ≤ Utf8.len front,
      scan ws.flatten (Utf8.len front) i none rest = some (visible .text rest)

/-- The end of a tag. -/
theorem scan_tag {front rest : Text} {c : Char}
    (hrest : ∀ a b, rest = a ++ b → Stripped ws html (front ++ c :: a) b)
    (hhtml : html = front ++ c :: rest)
    (hlooks : ∀ n ∈ looks .tag (front.length + 1) rest, Aligned ws html n) (hgt : '>' ∈ rest) :
    scan ws.flatten (Utf8.len front + c.utf8Size)
      (Utf8.len front + Utf8.len (c :: rest.takeWhile (· ≠ '>')) + 1) none rest =
        some (visible .tag rest) := by
  obtain ⟨a, b, rfl, ha⟩ := List.eq_append_cons_of_mem hgt
  have hall : ∀ d ∈ a, decide (d ≠ '>') = true := fun d hd =>
    decide_eq_true fun h => ha (h ▸ hd)
  have htake : (a ++ '>' :: b).takeWhile (· ≠ '>') = a := by
    rw [List.takeWhile_append_of_pos hall, List.takeWhile_cons_of_neg (by decide),
      List.append_nil]
  obtain ⟨hvisible, hlooks'⟩ := visible_tag ha (front.length + 1) b
  have hsplit : a ++ '>' :: b = a ++ ['>'] ++ b := by simp
  have hlen : Utf8.len (front ++ c :: (a ++ ['>'])) =
      Utf8.len front + Utf8.len (c :: a) + 1 := by
    rw [Utf8.len_append, Utf8.len_cons, Utf8.len_append, Utf8.len_cons]
    rfl
  have hskip : Utf8.len front + c.utf8Size + Utf8.len (a ++ ['>']) =
      Utf8.len front + Utf8.len (c :: a) + 1 := by
    rw [← hlen, Utf8.len_append front, Utf8.len_cons, Nat.add_assoc]
  rw [htake, hvisible, hsplit, scan_skip ws.flatten b hskip, ← hlen]
  refine hrest (a ++ ['>']) b hsplit (by rw [hhtml]; simp) (fun n hn => hlooks n ?_) _ le_rfl
  rw [hlooks']
  rwa [List.length_append, List.length_cons, List.length_append, List.length_singleton,
    show front.length + (a.length + 1 + 1) = front.length + 1 + a.length + 1 by omega] at hn

/-- A script or a style. -/
theorem scan_raw (himages : List.Forall₂ Image html ws) {close : Text} (hclose : Closes close)
    {front rest : Text}
    (hrest : ∀ a b, rest = a ++ b → Stripped ws html (front ++ a) b)
    (hhtml : html = front ++ rest) (haligned : Aligned ws html front.length)
    (hlooks : ∀ n ∈ looks (.raw close) front.length rest, Aligned ws html n) {i : ℕ}
    (hi : i ≤ Utf8.len front) :
    scan ws.flatten (Utf8.len front) i (some close) rest = some (visible (.raw close) rest) := by
  cases rest with
  | nil => rfl
  | cons c rest =>
    subst hhtml
    have himages' := forall₂_drop himages
    have hplain : Plain close := by
      obtain ⟨q, -, -, hplain⟩ := hclose
      exact hplain
    have hstart : close.head? = some '<' := by
      obtain ⟨q, rfl, -⟩ := hclose
      rfl
    rw [scan, if_neg (by omega)]
    simp only [drop?_of_aligned haligned, before?_flatten hplain hstart himages']
    cases hbefore : before? close ((c :: rest).map asciiLower) with
    | none => rw [visible_raw_of_none hbefore]; rfl
    | some low =>
      obtain ⟨a, t, b, hsplit, ha, ht, hvisible, hlooks'⟩ :=
        visible_raw_of_some hclose front.length hbefore
      rw [hlooks'] at hlooks
      have hcopy : Utf8.len ((ws.drop front.length).take low.length).flatten = Utf8.len a := by
        have hend := hlooks _ List.mem_cons_self
        rw [Aligned, List.take_left' rfl] at haligned
        rw [Aligned, hsplit, ← List.append_assoc, ← List.length_append, List.take_left' rfl,
          List.length_append, List.take_add, List.flatten_append, Utf8.len_append,
          haligned, Utf8.len_append, ha] at hend
        exact Nat.add_left_cancel hend
      have hne : a ++ t ≠ [] := by
        obtain ⟨q, rfl, -⟩ := hclose
        rintro hnil
        rw [(List.append_eq_nil_iff.mp hnil).2, Utf8.len_cons] at ht
        have := ('<').utf8Size_pos
        have hzero := Utf8.len_nil
        omega
      have hpos := Utf8.length_le_len (a ++ t)
      have hlen := List.length_pos_iff.mpr hne
      have hskip := scan_skip ws.flatten b
        (rfl : Utf8.len front + Utf8.len (a ++ t) = Utf8.len front + Utf8.len (a ++ t))
      rw [List.append_assoc, ← hsplit, scan, if_pos (by omega)] at hskip
      simp only [Option.map_some, hcopy, hvisible]
      rw [Nat.add_assoc, ← ht, ← Utf8.len_append, hskip, ← Utf8.len_append]
      refine hrest (a ++ t) b (by rw [hsplit, List.append_assoc])
        (by rw [hsplit]; simp) (fun n hn => hlooks n (List.mem_cons_of_mem _ ?_)) _ le_rfl
      rwa [List.length_append, List.length_append, ← Nat.add_assoc] at hn

theorem modeAt_eq (himages : List.Forall₂ Image html ws) : modeAt html =
    if scriptOpen.isPrefixOf ws.flatten then .raw scriptClose
    else if styleOpen.isPrefixOf ws.flatten then .raw styleClose else .tag := by
  rw [modeAt, isPrefixOf_flatten_iff plain_scriptOpen himages,
    isPrefixOf_flatten_iff plain_styleOpen himages]

theorem breaks_eq (himages : List.Forall₂ Image html ws) :
    (breaks fun block => block.isPrefixOf ws.flatten) = breaks (startsWith html) := by
  have hany : (blocks.any fun block => block.isPrefixOf ws.flatten) =
      blocks.any (startsWith html) := by
    rw [Bool.eq_iff_iff, List.any_eq_true, List.any_eq_true]
    refine exists_congr fun block => and_congr_right fun hblock => ?_
    rw [isPrefixOf_flatten_iff (plain_blocks block hblock) himages]
  rw [breaks, breaks, hany]

/-- The first character of a tag is as long in the copy. -/
theorem aligned_lt {front rest : Text} (h : Aligned ws (front ++ '<' :: rest) front.length)
    (himages : List.Forall₂ Image ('<' :: rest) (ws.drop front.length)) :
    Aligned ws (front ++ '<' :: rest) (front ++ ['<']).length := by
  have hsplit : front ++ '<' :: rest = front ++ ['<'] ++ rest := by simp
  obtain ⟨w, after, hw, -, hdrop⟩ := List.forall₂_cons_left_iff.mp himages
  have hlt : w = ['<'] := hw
  rw [Aligned, List.take_left' rfl] at h
  rw [Aligned, List.length_append, List.take_add, List.flatten_append, Utf8.len_append, h, hdrop,
    hlt, ← List.length_append, hsplit, List.take_left' rfl, Utf8.len_append]
  rfl

/-- A tag that begins in the text. -/
theorem scan_lt {front rest : Text} (himages : List.Forall₂ Image (front ++ '<' :: rest) ws)
    (hrest : ∀ a b, rest = a ++ b → Stripped ws (front ++ '<' :: rest) (front ++ '<' :: a) b)
    (hlooks : ∀ n ∈ looks .text front.length ('<' :: rest), Aligned ws (front ++ '<' :: rest) n)
    {i : ℕ} (hi : i ≤ Utf8.len front) :
    scan ws.flatten (Utf8.len front) i none ('<' :: rest) = some (visible .text ('<' :: rest)) := by
  rw [looks, if_pos rfl] at hlooks
  have haligned := hlooks _ List.mem_cons_self
  have himages' := forall₂_drop himages
  have hmode := modeAt_eq himages'
  -- a script and a style are skipped in the same way
  have hskip {close : Text} (hclose : Closes close) (hmode : modeAt ('<' :: rest) = .raw close) :
      scan ws.flatten (Utf8.len front + ('<').utf8Size) i (some close) rest =
        some (visible .text ('<' :: rest)) := by
    have hone : Utf8.len (front ++ ['<']) = Utf8.len front + ('<').utf8Size := by simp
    have hlength : (front ++ ['<']).length = front.length + 1 := by simp
    have hraw (a b : Text) (hab : rest = a ++ b) :
        Stripped ws (front ++ '<' :: rest) (front ++ ['<'] ++ a) b := by
      rw [List.append_assoc]
      exact hrest a b hab
    rw [hmode] at hlooks
    rw [visible, if_pos rfl, hmode, if_neg nofun, List.nil_append, ← hone]
    exact scan_raw himages hclose hraw (by simp) (aligned_lt haligned himages')
      (fun n hn => hlooks n (List.mem_cons_of_mem _ (by rwa [hlength] at hn)))
      (by rw [hone]; omega)
  rw [scan, if_neg (by omega)]
  simp only [drop?_of_aligned haligned, if_true]
  split
  · rename_i hscript
    exact hskip closes_scriptClose (hmode.trans (if_pos hscript))
  · rename_i hscript
    rw [if_neg hscript] at hmode
    split
    · rename_i hstyle
      exact hskip closes_styleClose (hmode.trans (if_pos hstyle))
    · rename_i hstyle
      rw [if_neg hstyle] at hmode
      rw [hmode] at hlooks
      rw [visible, if_pos rfl, hmode, if_pos rfl, breaks_eq himages']
      split
      · rename_i hgt
        rw [scan_tag hrest rfl (fun n hn => hlooks n (List.mem_cons_of_mem _ hn)) hgt]
        rfl
      · rename_i hgt
        rw [visible_tag_of_not_mem hgt, List.append_nil]

/-- **The loop leaves what it should** from any character on. -/
theorem scan_eq_visible (himages : List.Forall₂ Image html ws) (front rest : Text) :
    Stripped ws html front rest := by
  induction hn : rest.length using Nat.strong_induction_on generalizing front rest with
  | _ n ih =>
    subst hn
    intro hhtml hlooks i hi
    cases rest with
    | nil => rfl
    | cons c rest =>
      have hnext (a b : Text) (hab : rest = a ++ b) : Stripped ws html (front ++ c :: a) b :=
        ih b.length (by rw [hab, List.length_cons, List.length_append]; omega) _ b rfl
      by_cases hc : c = '<'
      · subst hc hhtml
        exact scan_lt himages hnext hlooks hi
      · have hone : Utf8.len (front ++ [c]) = Utf8.len front + c.utf8Size := by simp
        have hlength : (front ++ [c]).length = front.length + 1 := by simp
        rw [looks, if_neg hc] at hlooks
        rw [scan, if_neg (by omega), visible]
        simp only [if_neg hc]
        have hafter := hnext [] rest rfl (by rw [hhtml]; simp) (by rwa [hlength]) i
          (by rw [hone]; omega)
        rw [← hone, hafter]
        rfl

end

/-- **A page is stripped as it should be**, without a stop, if wherever a tag is told apart the page
and its copy have the same number of bytes up to there. -/
theorem stripHtml_eq_visible (images : Text → List Text)
    (himages : ∀ text, List.Forall₂ Image text (images text)) (html : Text)
    (heven : Even images html) :
    stripHtml images html = some (decodeEntities (visible .text html)) := by
  have hscan := scan_eq_visible (himages html) [] html rfl heven 0 le_rfl
  rw [stripHtml]
  rw [Utf8.len_nil] at hscan
  rw [hscan, Option.map_some]

/-- Lower case, of the letters that are used here. -/
def lowercase (text : Text) : List Text :=
  text.map fun c =>
    if c.toNat < 128 then [asciiLower c]
    else if c = 'İ' then ['i', Char.ofNat 0x307]
    else [c]

theorem image_lowercase (text : Text) : List.Forall₂ Image text (lowercase text) := by
  rw [lowercase, List.forall₂_map_right_iff, List.forall₂_same]
  intro c _
  rw [Image]
  split
  · rfl
  · rename_i hc
    split
    · exact ⟨by decide, .inr (.inl ⟨_, _, rfl, by decide⟩)⟩
    · refine ⟨fun hlt => hc ?_, .inl ⟨c, [], rfl, Nat.le_of_not_lt hc⟩⟩
      rw [← List.mem_singleton.mp hlt]
      decide

theorem stripHtml_eq_visible_script :
    stripHtml lowercase "<p>é<SCRIPT>a<b</Script> &amp; b<br>".toList =
      some "é & b\n\n".toList :=
  (stripHtml_eq_visible lowercase image_lowercase _ (by decide)).trans (by decide)

/-- With a letter before a tag that is longer in lower case, the program stops. -/
theorem not_stripHtml_eq_visible :
    List.Forall₂ Image "İ<b>".toList (lowercase "İ<b>".toList) ∧
      decodeEntities (visible .text "İ<b>".toList) = "İ".toList ∧
      stripHtml lowercase "İ<b>".toList = none :=
  ⟨image_lowercase _, by decide, by decide⟩

end ApexOS.Cerebro.Html
