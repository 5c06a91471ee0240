import ApexOS.Cerebro.Types
import ApexOS.Cerebro.Memory
import ApexOS.Deploy.Verdict
import ApexOS.Lib.Words

/-!
# Text taken in

`chunk_text` and `ingest_markdown` of `cerebro/src/ingest.rs`. A text is cut into paragraphs, and a
long paragraph into sentences that are packed again. A document with headings is cut at them, and
each section is one chunk, with its title before a colon; what stands before the first heading is in
no section.

A text is its characters. What `remember` does with a chunk is a parameter. A report keeps, for the
statements, the text of every chunk that is stored or counted as skipped.

## Main definitions

* `splitParagraphs`, `splitSentences`, `packSentences`, `chunkText`
* `parseFrontmatter`, `extractSections`, `ingestMarkdown`
* `DropsNothing`: what is promised of a text

## Main results

* `words_chunkText`, `chunk_bound`: chunks keep the words and are small, or single sentences
* `words_extractSections`: the sections have what follows the first heading
* `dropsNothing_iff`: a document loses what stands before its first heading
-/

namespace ApexOS.Cerebro.Ingest

open ApexOS.Agentd (isWhitespace)
open ApexOS.Deploy.Verdict (lines)
open Words (words trim)

abbrev Text := List Char

/-! ### Chunks -/

/-- `MAX_CHUNK_WORDS`. -/
def maxChunkWords : ℕ := 500

/-- `MIN_CHUNK_LENGTH`. -/
def minChunkLength : ℕ := 10

/-- The paragraphs so far, and the lines of the current one. -/
abbrev Paragraphs := List Text × Text

/-- The current paragraph is done. -/
def flush (s : Paragraphs) : List Text :=
  if trim isWhitespace s.2 ≠ [] then s.1 ++ [trim isWhitespace s.2] else s.1

/-- One line of `split_paragraphs`. -/
def addLine (s : Paragraphs) (line : Text) : Paragraphs :=
  if trim isWhitespace line = [] then (flush s, [])
  else (s.1, if s.2 ≠ [] then s.2 ++ '\n' :: line else line)

/-- `split_paragraphs`. -/
def splitParagraphs (text : Text) : List Text := flush ((lines text).foldl addLine ([], []))

/-- `is_ascii_whitespace`. -/
def isAsciiWhitespace (c : Char) : Bool :=
  c = ' ' || c = '\t' || c = '\n' || c.toNat = 12 || c = '\r'

/-- A character ends a sentence here. -/
def endsSentence (c : Char) (rest : Text) : Bool :=
  (c = '.' || c = '!' || c = '?') && rest.head?.any isAsciiWhitespace

/-- A sentence that says something. -/
def pushTrimmed (sentence : Text) (sentences : List Text) : List Text :=
  if trim isWhitespace sentence ≠ [] then trim isWhitespace sentence :: sentences else sentences

/-- The scan of `split_sentences`, with the sentence so far; between two sentences whitespace is
skipped. -/
def scanSentences : (skipping : Bool) → (sentence rest : Text) → List Text
  | _, sentence, [] => pushTrimmed sentence []
  | skipping, sentence, c :: rest =>
    if skipping && isAsciiWhitespace c then scanSentences true sentence rest
    else if endsSentence c rest then
      pushTrimmed (sentence ++ [c]) (scanSentences true [] rest)
    else scanSentences false (sentence ++ [c]) rest

/-- `split_sentences`. -/
def splitSentences (para : Text) : List Text := scanSentences false [] para

/-- `join(" ")`. -/
def joinSentences (sentences : List Text) : Text := [' '].intercalate sentences

/-- The chunks so far, and the sentences of the current one with the number of their words. -/
structure Packing where
  chunks : List Text
  current : List Text
  currentWords : ℕ

/-- One sentence is packed. -/
def pack (s : Packing) (sentence : Text) : Packing :=
  let n := (words isWhitespace sentence).length
  if maxChunkWords < s.currentWords + n ∧ s.current ≠ [] then
    ⟨s.chunks ++ [joinSentences s.current], [sentence], n⟩
  else ⟨s.chunks, s.current ++ [sentence], s.currentWords + n⟩

/-- Sentences up to the word cap. -/
def packSentences (sentences : List Text) : List Text :=
  let s := sentences.foldl pack ⟨[], [], 0⟩
  if s.current ≠ [] then s.chunks ++ [joinSentences s.current] else s.chunks

/-- `chunk_text`. -/
def chunkText (text : Text) : List Text :=
  (splitParagraphs text).flatMap fun para =>
    if (words isWhitespace para).length ≤ maxChunkWords then [para]
    else packSentences (splitSentences para)

/-! ### What chunks keep -/

theorem isWhitespace_of_ascii {c : Char} (h : isAsciiWhitespace c = true) :
    isWhitespace c = true := by
  simp only [isAsciiWhitespace, Bool.or_eq_true, decide_eq_true_eq] at h
  obtain (((rfl | rfl) | rfl) | hc) | rfl := h
  · decide
  · decide
  · decide
  · simp [isWhitespace, hc]
  · decide

/-- The lines of a text have its words: the carriage returns that are cut are no part of one. -/
theorem words_lines (text : Text) :
    (lines text).flatMap (words isWhitespace) = words isWhitespace text := by
  have hcut (piece : Text) :
      words isWhitespace (if piece.getLast? = some '\r' then piece.dropLast else piece) =
        words isWhitespace piece := by
    split
    · rename_i hlast
      obtain ⟨front, rfl⟩ := List.getLast?_eq_some_iff.mp hlast
      rw [List.dropLast_concat]
      have hsep : ∀ c ∈ ['\r'], isWhitespace c = true := List.forall_mem_singleton.mpr (by decide)
      exact (Words.words_append_of_all hsep front).symm
    · rfl
  rw [← Words.flatMap_words_splitOn (c := '\n') (by decide), lines]
  obtain ⟨front, last, hpieces⟩ : ∃ front last, text.splitOn '\n' = front ++ [last] :=
    ⟨_, _, (List.dropLast_append_getLast (List.splitOn_ne_nil '\n' text)).symm⟩
  simp only [hpieces, List.dropLast_concat, List.getLast?_concat, Option.toList_some,
    List.flatMap_append, List.flatMap_map, hcut]
  congr 1
  cases last with
  | nil => simp
  | cons c last => simp

theorem words_flush (s : Paragraphs) :
    (flush s).flatMap (words isWhitespace) =
      s.1.flatMap (words isWhitespace) ++ words isWhitespace s.2 := by
  rw [flush]
  split
  · simp
  · rename_i h
    rw [Words.words_of_trim_eq_nil (not_not.mp h), List.append_nil]

theorem words_addLine (s : Paragraphs) (line : Text) :
    (addLine s line).1.flatMap (words isWhitespace) ++ words isWhitespace (addLine s line).2 =
      s.1.flatMap (words isWhitespace) ++ words isWhitespace s.2 ++ words isWhitespace line := by
  rw [addLine]
  split
  · rename_i h
    simp [words_flush, Words.words_of_trim_eq_nil h]
  · dsimp only
    split
    · rw [Words.words_append_cons (by decide), List.append_assoc]
    · rename_i h
      simp [not_not.mp h]

theorem words_splitParagraphs (text : Text) :
    (splitParagraphs text).flatMap (words isWhitespace) = words isWhitespace text := by
  have hfold (ls : List Text) (s : Paragraphs) :
      (ls.foldl addLine s).1.flatMap (words isWhitespace) ++
          words isWhitespace (ls.foldl addLine s).2 =
        s.1.flatMap (words isWhitespace) ++ words isWhitespace s.2 ++
          ls.flatMap (words isWhitespace) := by
    induction ls generalizing s with
    | nil => simp
    | cons line ls ih =>
      rw [List.foldl_cons, ih, words_addLine, List.flatMap_cons, List.append_assoc]
  rw [splitParagraphs, words_flush, hfold, words_lines]
  simp

theorem words_pushTrimmed (sentence : Text) (sentences : List Text) :
    (pushTrimmed sentence sentences).flatMap (words isWhitespace) =
      words isWhitespace sentence ++ sentences.flatMap (words isWhitespace) := by
  rw [pushTrimmed]
  split
  · simp
  · rename_i h
    rw [Words.words_of_trim_eq_nil (not_not.mp h), List.nil_append]

/-- What is skipped is whitespace, after a sentence that is done. -/
theorem words_scanSentences : ∀ (skipping : Bool) (sentence rest : Text),
    (skipping = true → sentence = []) →
      (scanSentences skipping sentence rest).flatMap (words isWhitespace) =
        words isWhitespace (sentence ++ rest)
  | _, sentence, [], _ => by
    rw [scanSentences, words_pushTrimmed]
    simp
  | skipping, sentence, c :: rest, h => by
    rw [scanSentences]
    split
    · rename_i hskip
      rw [Bool.and_eq_true] at hskip
      rw [words_scanSentences true sentence rest fun _ => h hskip.1, h hskip.1, List.nil_append,
        List.nil_append, Words.words_cons (isWhitespace_of_ascii hskip.2)]
    · split
      · rename_i hends
        rw [words_pushTrimmed, words_scanSentences true [] rest fun _ => rfl, List.nil_append]
        rw [endsSentence, Bool.and_eq_true] at hends
        -- the next character separates the two sentences
        cases rest with
        | nil => simp at hends
        | cons d rest =>
          have hd : isWhitespace d = true := isWhitespace_of_ascii (by simpa using hends.2)
          have hsplit : sentence ++ c :: d :: rest = (sentence ++ [c]) ++ d :: rest := by simp
          rw [hsplit, Words.words_cons hd, Words.words_append_cons hd]
      · rw [words_scanSentences false (sentence ++ [c]) rest nofun, List.append_assoc]
        rfl

theorem words_splitSentences (para : Text) :
    (splitSentences para).flatMap (words isWhitespace) = words isWhitespace para :=
  words_scanSentences false [] para nofun

theorem words_joinSentences (sentences : List Text) :
    words isWhitespace (joinSentences sentences) = sentences.flatMap (words isWhitespace) :=
  Words.words_intercalate (by decide) sentences

theorem joinSentences_singleton (sentence : Text) : joinSentences [sentence] = sentence := by
  simp [joinSentences]

/-- After some sentences: their words are in the chunks and the current one, the current one is
small or a single sentence, and so is every chunk. -/
structure Packed (done : List Text) (s : Packing) : Prop where
  kept : s.chunks.flatMap (words isWhitespace) ++ s.current.flatMap (words isWhitespace) =
    done.flatMap (words isWhitespace)
  count : s.currentWords = (s.current.flatMap (words isWhitespace)).length
  small : s.currentWords ≤ maxChunkWords ∨ ∃ sentence ∈ done, s.current = [sentence]
  chunks : ∀ chunk ∈ s.chunks, (words isWhitespace chunk).length ≤ maxChunkWords ∨
    chunk ∈ done

variable {done : List Text} {s : Packing}

/-- The current chunk can be closed. -/
theorem Packed.close (h : Packed done s) :
    (words isWhitespace (joinSentences s.current)).length ≤ maxChunkWords ∨
      joinSentences s.current ∈ done := by
  rw [words_joinSentences, ← h.count]
  refine h.small.imp_right ?_
  rintro ⟨sentence, hmem, hcurrent⟩
  rwa [hcurrent, joinSentences_singleton]

theorem Packed.step (h : Packed done s) (sentence : Text) :
    Packed (done ++ [sentence]) (pack s sentence) := by
  have hmem : sentence ∈ done ++ [sentence] := by simp
  have hlater {chunk : Text} (hchunk : (words isWhitespace chunk).length ≤ maxChunkWords ∨
      chunk ∈ done) : (words isWhitespace chunk).length ≤ maxChunkWords ∨
        chunk ∈ done ++ [sentence] := hchunk.imp_right (List.mem_append_left _)
  rw [pack]
  split
  · refine ⟨?_, by simp, .inr ⟨sentence, hmem, rfl⟩, fun chunk hchunk => ?_⟩
    · simp [words_joinSentences, ← h.kept]
    · obtain hchunk | hchunk := List.mem_append.mp hchunk
      · exact hlater (h.chunks chunk hchunk)
      · rw [List.mem_singleton.mp hchunk]
        exact hlater h.close
  · rename_i hfits
    refine ⟨?_, ?_, ?_, fun chunk hchunk => hlater (h.chunks chunk hchunk)⟩
    · simp [← h.kept]
    · simp [h.count]
    · by_cases hcurrent : s.current = []
      · exact .inr ⟨sentence, hmem, by simp [hcurrent]⟩
      · exact .inl (Nat.le_of_not_lt fun hlt => hfits ⟨hlt, hcurrent⟩)

theorem Packed.run (h : Packed done s) (sentences : List Text) :
    Packed (done ++ sentences) (sentences.foldl pack s) := by
  induction sentences generalizing done s with
  | nil => rwa [List.append_nil]
  | cons sentence sentences ih =>
    rw [List.append_cons]
    exact ih (h.step sentence)

theorem packed_sentences (sentences : List Text) :
    Packed sentences (sentences.foldl pack ⟨[], [], 0⟩) := by
  have hstart : Packed [] ⟨[], [], 0⟩ := ⟨rfl, rfl, .inl (Nat.zero_le _), fun _ h => nomatch h⟩
  exact hstart.run sentences

theorem words_packSentences (sentences : List Text) :
    (packSentences sentences).flatMap (words isWhitespace) =
      sentences.flatMap (words isWhitespace) := by
  rw [← (packed_sentences sentences).kept, packSentences]
  split
  · simp [words_joinSentences]
  · rename_i h
    simp [not_not.mp h]

theorem bound_packSentences {sentences : List Text} {chunk : Text}
    (hchunk : chunk ∈ packSentences sentences) :
    (words isWhitespace chunk).length ≤ maxChunkWords ∨ chunk ∈ sentences := by
  have hpacked := packed_sentences sentences
  rw [packSentences] at hchunk
  split at hchunk
  · obtain hchunk | hchunk := List.mem_append.mp hchunk
    · exact hpacked.chunks chunk hchunk
    · rw [List.mem_singleton.mp hchunk]
      exact hpacked.close
  · exact hpacked.chunks chunk hchunk

/-- **Chunks keep the words.** -/
theorem words_chunkText (text : Text) :
    (chunkText text).flatMap (words isWhitespace) = words isWhitespace text := by
  rw [← words_splitParagraphs, chunkText, List.flatMap_assoc]
  refine List.flatMap_congr fun para _ => ?_
  split
  · simp
  · rw [words_packSentences, words_splitSentences]

/-- **A chunk is small, or one sentence.** -/
theorem chunk_bound {text chunk : Text} (hchunk : chunk ∈ chunkText text) :
    (words isWhitespace chunk).length ≤ maxChunkWords ∨
      ∃ para ∈ splitParagraphs text, chunk ∈ splitSentences para := by
  obtain ⟨para, hpara, hchunk⟩ := List.mem_flatMap.mp hchunk
  split at hchunk
  · rename_i hsmall
    rw [List.mem_singleton.mp hchunk]
    exact .inl hsmall
  · exact (bound_packSentences hchunk).imp_right fun h => ⟨para, hpara, h⟩

/-! ### Markdown -/

/-- A key and its value, of a line between the fences. -/
def frontPair (line : Text) : Option (Text × Text) :=
  if ':' ∈ line then
    let k := trim isWhitespace (line.takeWhile (· ≠ ':'))
    let v := trim (fun c => c = '[' || c = ']')
      (trim isWhitespace ((line.dropWhile (· ≠ ':')).drop 1))
    if k = [] then none else some (k, trim (fun c => c = '\'' || c = '"') v)
  else none

/-- `parse_frontmatter`. -/
def parseFrontmatter (text : Text) : List (Text × Text) × Text :=
  let trimmed := text.dropWhile isWhitespace
  if "---".toList.isPrefixOf trimmed then
    let rest := (lines trimmed).drop 1
    let front := rest.takeWhile fun line => trim isWhitespace line ≠ "---".toList
    if front.length < rest.length then
      (front.filterMap frontPair, ['\n'].intercalate (rest.drop (front.length + 1)))
    else ([], text)
  else ([], text)

/-- The title of a heading line. -/
def headingOf (line : Text) : Option Text :=
  let t := line.rdropWhile isWhitespace
  if "## ".toList.isPrefixOf t then some (trim isWhitespace (t.drop 3)) else none

/-- The line is no heading. -/
def isPlain (line : Text) : Bool := (headingOf line).isNone

/-- The sections of lines: a title, and the lines up to the next heading. The end of the last of
these lines is trimmed with the rest. -/
def sectionsOf : List Text → List (Text × Text)
  | [] => []
  | line :: rest =>
    match headingOf line with
    | none => sectionsOf rest
    | some title =>
      (title, trim isWhitespace (['\n'].intercalate (rest.takeWhile isPlain))) :: sectionsOf rest

/-- `extract_sections`. -/
def extractSections (text : Text) : List (Text × Text) := sectionsOf (text.splitOn '\n')

/-- `IngestReport`; `pieces` are the texts that are stored or counted as skipped. -/
structure Report where
  imported : ℕ
  skipped : ℕ
  ids : List String
  errors : List String
  pieces : List Text
  deriving DecidableEq

namespace Report

def new : Report := ⟨0, 0, [], [], []⟩

/-- A piece is skipped. -/
def skip (r : Report) (piece : Text) : Report :=
  { r with
    skipped := r.skipped + 1
    pieces := r.pieces ++ [piece] }

end Report

section

variable (remember : Text → MemoryType → List Text → Except String String) (lower : Text → Text)

/-- One chunk of `store_chunks`. -/
def storeChunk (memoryType : MemoryType) (tags : List Text) (r : Report) (chunk : Text) : Report :=
  let chunk := trim isWhitespace chunk
  if Utf8.len chunk < minChunkLength then r.skip chunk
  else match remember chunk memoryType tags with
    | .ok id =>
      { r with
        imported := r.imported + 1
        ids := r.ids ++ [id]
        pieces := r.pieces ++ [chunk] }
    | .error e => { r.skip chunk with errors := r.errors ++ ["chunk rejected: " ++ e] }

/-- `store_chunks`. -/
def storeChunks (memoryType : MemoryType) (tags : List Text) (r : Report) (chunks : List Text) :
    Report :=
  chunks.foldl (storeChunk remember memoryType tags) r

/-- The tag that a title becomes. -/
def slugOf (title : Text) : Text :=
  ['_'].intercalate ((((lower title).map fun c =>
    if c.isAlphanum then c else '_').splitOn '_').filter fun w => w ≠ [])

/-- The tags of a section. -/
def sectionTags (tags : List Text) (title : Text) : List Text :=
  let slug := slugOf lower title
  if title = [] ∨ slug = [] ∨ slug ∈ tags then tags else tags ++ [slug]

/-- The text of a section. -/
def fullOf (title content : Text) : Text :=
  if title = [] then content else title ++ ':' :: ' ' :: content

/-- One section. -/
def storeSection (memoryType : MemoryType) (tags : List Text) (r : Report) (x : Text × Text) :
    Report :=
  let content := trim isWhitespace x.2
  if Utf8.len content < 3 then r.skip (fullOf x.1 content)
  else storeChunks remember memoryType (sectionTags lower tags x.1) r [fullOf x.1 content]

/-- The type that the front matter names. -/
def defaultType (front : List (Text × Text)) : MemoryType :=
  ((front.find? fun x => x.1 = "type".toList).bind fun x =>
    MemoryType.variants.lookup (String.ofList x.2)).getD .semantic

/-- The tags that the front matter adds. -/
def frontTags (front : List (Text × Text)) : List Text :=
  (front.filter fun x => x.1 = "tags".toList).flatMap fun x =>
    ((x.2.splitOn ',').map (trim isWhitespace)).filter fun t => t ≠ []

/-- `ingest_markdown`. -/
def ingestMarkdown (text : Text) (tags : List Text) : Report :=
  let (front, body) := parseFrontmatter text
  let tags := tags ++ frontTags front
  let sections := extractSections body
  if sections = [] then
    storeChunks remember (defaultType front) tags .new (chunkText body)
  else sections.foldl (storeSection remember lower (defaultType front) tags) .new

end

/-- The words of a line, a heading's with the colon that follows it in a chunk. -/
def lineWords (line : Text) : List Text :=
  match headingOf line with
  | some title => words isWhitespace (title ++ [':'])
  | none => words isWhitespace line

/-- The words of a body outside of heading markers. -/
def bodyWords (body : Text) : List Text := (body.splitOn '\n').flatMap lineWords

/-! ### What a document keeps -/

theorem headingOf_ne_nil {line title : Text} (h : headingOf line = some title) : title ≠ [] := by
  rw [headingOf, Option.ite_none_right_eq_some, Option.some.injEq] at h
  obtain ⟨hmarked, rfl⟩ := h
  obtain ⟨rest, hrest⟩ := List.isPrefixOf_iff_prefix.mp hmarked
  have hdrop : (line.rdropWhile isWhitespace).drop 3 = rest := by
    rw [← hrest]
    rfl
  rw [hdrop, ne_eq, Words.trim_eq_nil_iff]
  intro hall
  have hne : line.rdropWhile isWhitespace ≠ [] := by
    rw [← hrest]
    simp
  refine List.rdropWhile_last_not isWhitespace line hne ?_
  have hlast : (line.rdropWhile isWhitespace).getLast hne ∈ "## ".toList ++ rest := by
    rw [hrest]
    exact List.getLast_mem hne
  have hgetLast : ((line.rdropWhile isWhitespace).getLast hne) =
      ("## ".toList ++ rest).getLast (by simp) := by
    simp only [hrest]
  rw [hgetLast]
  by_cases hnil : rest = []
  · subst hnil
    decide
  · rw [List.getLast_append_of_ne_nil _ hnil]
    exact hall _ (List.getLast_mem hnil)

theorem lineWords_of_plain {line : Text} (h : isPlain line = true) :
    lineWords line = words isWhitespace line := by
  rw [isPlain, Option.isNone_iff_eq_none] at h
  rw [lineWords, h]

theorem flatMap_lineWords_of_plain {ls : List Text} (h : ∀ line ∈ ls, isPlain line = true) :
    ls.flatMap lineWords = ls.flatMap (words isWhitespace) :=
  List.flatMap_congr fun line hline => lineWords_of_plain (h line hline)

theorem words_fullOf {title : Text} (htitle : title ≠ []) (content : Text) :
    words isWhitespace (fullOf title content) =
      words isWhitespace (title ++ [':']) ++ words isWhitespace content := by
  have hspace : isWhitespace ' ' = true := by decide
  rw [fullOf, if_neg htitle, List.append_cons, Words.words_append_cons hspace]

/-- **The sections** have the words from the first heading on. -/
theorem words_sectionsOf (ls : List Text) :
    (sectionsOf ls).flatMap (fun x => words isWhitespace (fullOf x.1 x.2)) =
      (ls.dropWhile isPlain).flatMap lineWords := by
  induction ls with
  | nil => rfl
  | cons line ls ih =>
    rw [sectionsOf]
    cases hheading : headingOf line with
    | none =>
      have hplain : isPlain line = true := by rw [isPlain, hheading]; rfl
      rw [List.dropWhile_cons_of_pos hplain]
      exact ih
    | some title =>
      have hplain : ¬ isPlain line = true := by simp [isPlain, hheading]
      have hnewline : isWhitespace '\n' = true := by decide
      have hsplit : ls.flatMap lineWords = (ls.takeWhile isPlain).flatMap (words isWhitespace) ++
          (ls.dropWhile isPlain).flatMap lineWords := by
        conv_lhs => rw [← List.takeWhile_append_dropWhile (p := isPlain) (l := ls)]
        rw [List.flatMap_append,
          flatMap_lineWords_of_plain fun line hline => List.mem_takeWhile_imp hline]
      rw [List.dropWhile_cons_of_neg hplain, List.flatMap_cons, List.flatMap_cons, ih, lineWords,
        hheading, words_fullOf (headingOf_ne_nil hheading), Words.words_trim,
        Words.words_intercalate hnewline, hsplit, List.append_assoc]

theorem sectionsOf_eq_nil_iff (ls : List Text) :
    sectionsOf ls = [] ↔ ∀ line ∈ ls, isPlain line = true := by
  induction ls with
  | nil => simp [sectionsOf]
  | cons line ls ih =>
    rw [sectionsOf, List.forall_mem_cons, isPlain]
    cases headingOf line with
    | none => simpa using ih
    | some title => simp

/-! ### What is stored or skipped -/

variable {remember : Text → MemoryType → List Text → Except String String} {lower : Text → Text}
  {memoryType : MemoryType} {tags : List Text}

theorem pieces_storeChunk (r : Report) (chunk : Text) :
    (storeChunk remember memoryType tags r chunk).pieces =
      r.pieces ++ [trim isWhitespace chunk] := by
  rw [storeChunk]
  split
  · rfl
  · split <;> rfl

theorem words_storeChunks (r : Report) (chunks : List Text) :
    (storeChunks remember memoryType tags r chunks).pieces.flatMap (words isWhitespace) =
      r.pieces.flatMap (words isWhitespace) ++ chunks.flatMap (words isWhitespace) := by
  rw [storeChunks]
  induction chunks generalizing r with
  | nil => simp
  | cons chunk chunks ih =>
    rw [List.foldl_cons, ih, pieces_storeChunk]
    simp

theorem words_storeSection (r : Report) (x : Text × Text) (hx : x.1 ≠ []) :
    (storeSection remember lower memoryType tags r x).pieces.flatMap (words isWhitespace) =
      r.pieces.flatMap (words isWhitespace) ++ words isWhitespace (fullOf x.1 x.2) := by
  have hfull : words isWhitespace (fullOf x.1 (trim isWhitespace x.2)) =
      words isWhitespace (fullOf x.1 x.2) := by
    rw [words_fullOf hx, words_fullOf hx, Words.words_trim]
  rw [storeSection]
  split
  · simp [Report.skip, hfull]
  · rw [words_storeChunks]
    simp [hfull]

theorem title_ne_nil_of_mem {ls : List Text} {x : Text × Text} (hx : x ∈ sectionsOf ls) :
    x.1 ≠ [] := by
  induction ls with
  | nil => cases hx
  | cons line ls ih =>
    rw [sectionsOf] at hx
    cases hheading : headingOf line with
    | none =>
      rw [hheading] at hx
      exact ih hx
    | some title =>
      rw [hheading] at hx
      obtain rfl | hx := List.mem_cons.mp hx
      · exact headingOf_ne_nil hheading
      · exact ih hx

theorem words_storeSections {sections : List (Text × Text)} (h : ∀ x ∈ sections, x.1 ≠ [])
    (r : Report) :
    (sections.foldl (storeSection remember lower memoryType tags) r).pieces.flatMap
        (words isWhitespace) =
      r.pieces.flatMap (words isWhitespace) ++
        sections.flatMap fun x => words isWhitespace (fullOf x.1 x.2) := by
  induction sections generalizing r with
  | nil => simp
  | cons x sections ih =>
    rw [List.foldl_cons, ih fun y hy => h y (List.mem_cons_of_mem _ hy),
      words_storeSection r x (h x List.mem_cons_self), List.flatMap_cons, List.append_assoc]

/-- Every piece is counted. -/
def Report.Counted (r : Report) : Prop := r.pieces.length = r.imported + r.skipped

theorem Report.Counted.skip {r : Report} (h : r.Counted) (piece : Text) :
    (r.skip piece).Counted := by
  rw [Counted] at h ⊢
  simp only [Report.skip, List.length_append, h, List.length_singleton]
  omega

theorem Report.Counted.storeChunk {r : Report} (h : r.Counted) (chunk : Text) :
    (storeChunk remember memoryType tags r chunk).Counted := by
  rw [Ingest.storeChunk]
  split
  · exact h.skip _
  · split
    · rw [Counted] at h ⊢
      simp only [List.length_append, h, List.length_singleton]
      omega
    · exact h.skip _

theorem Report.Counted.storeChunks {r : Report} (h : r.Counted) (chunks : List Text) :
    (storeChunks remember memoryType tags r chunks).Counted := by
  rw [Ingest.storeChunks]
  induction chunks generalizing r with
  | nil => exact h
  | cons chunk chunks ih => exact ih (h.storeChunk chunk)

theorem Report.Counted.storeSections {r : Report} (h : r.Counted)
    (sections : List (Text × Text)) :
    (sections.foldl (storeSection remember lower memoryType tags) r).Counted := by
  induction sections generalizing r with
  | nil => exact h
  | cons x sections ih =>
    refine ih ?_
    rw [storeSection]
    split
    · exact h.skip _
    · exact h.storeChunks _

theorem counted_ingestMarkdown (text : Text) :
    (ingestMarkdown remember lower text tags).Counted := by
  have hnew : Report.new.Counted := rfl
  rw [ingestMarkdown]
  dsimp only
  split
  · exact hnew.storeChunks _
  · exact hnew.storeSections _

/-- The lines before the first heading. -/
def preamble (body : Text) : List Text := (body.splitOn '\n').takeWhile isPlain

/-- The body has no heading, or nothing but whitespace before the first one. -/
def StartsWithHeading (body : Text) : Prop :=
  (∀ line ∈ body.splitOn '\n', isPlain line = true) ∨
    ∀ line ∈ preamble body, trim isWhitespace line = []

instance (body : Text) : Decidable (StartsWithHeading body) :=
  inferInstanceAs (Decidable (_ ∨ _))

/-- The words of what is stored or skipped are those of the body, but for its first lines. -/
theorem words_ingestMarkdown (remember : Text → MemoryType → List Text → Except String String)
    (lower : Text → Text) (tags : List Text) (text : Text) :
    bodyWords (parseFrontmatter text).2 =
      (if extractSections (parseFrontmatter text).2 = [] then []
        else (preamble (parseFrontmatter text).2).flatMap (words isWhitespace)) ++
      (ingestMarkdown remember lower text tags).pieces.flatMap (words isWhitespace) := by
  have hnewline : isWhitespace '\n' = true := by decide
  rw [ingestMarkdown]
  dsimp only
  split
  · rename_i hnone
    have hplain := (sectionsOf_eq_nil_iff _).mp hnone
    rw [words_storeChunks, words_chunkText, bodyWords, flatMap_lineWords_of_plain hplain,
      Words.flatMap_words_splitOn hnewline]
    rfl
  · rw [extractSections, words_storeSections fun x hx => title_ne_nil_of_mem hx, words_sectionsOf,
      bodyWords, preamble]
    conv_lhs => rw [← List.takeWhile_append_dropWhile (p := isPlain)
      (l := (parseFrontmatter text).2.splitOn '\n')]
    rw [List.flatMap_append,
      flatMap_lineWords_of_plain fun line hline => List.mem_takeWhile_imp hline]
    rfl

/-- What is promised of a text that is taken in, as text and as a document. -/
structure DropsNothing (remember : Text → MemoryType → List Text → Except String String)
    (lower : Text → Text) (tags : List Text) (text : Text) : Prop where
  chunked : (chunkText text).flatMap (words isWhitespace) = words isWhitespace text
  bound : ∀ chunk ∈ chunkText text, (words isWhitespace chunk).length ≤ maxChunkWords ∨
    ∃ para ∈ splitParagraphs text, chunk ∈ splitSentences para
  counted : (ingestMarkdown remember lower text tags).Counted
  accounted : (ingestMarkdown remember lower text tags).pieces.flatMap (words isWhitespace) =
    bodyWords (parseFrontmatter text).2

/-- **A document loses what stands before its first heading**, and nothing else. -/
theorem dropsNothing_iff (remember : Text → MemoryType → List Text → Except String String)
    (lower : Text → Text) (tags : List Text) (text : Text) :
    DropsNothing remember lower tags text ↔ StartsWithHeading (parseFrontmatter text).2 := by
  have hwords := words_ingestMarkdown remember lower tags text
  have hnone := sectionsOf_eq_nil_iff ((parseFrontmatter text).2.splitOn '\n')
  constructor
  · intro h
    by_cases hsections : extractSections (parseFrontmatter text).2 = []
    · exact .inl (hnone.mp hsections)
    · refine .inr fun line hline => ?_
      rw [if_neg hsections, h.accounted] at hwords
      have hnil := List.append_left_eq_self.mp hwords.symm
      exact Words.trim_eq_nil_iff.mpr
        (Words.words_eq_nil_iff.mp (List.flatMap_eq_nil_iff.mp hnil line hline))
  · intro h
    refine ⟨words_chunkText text, fun _ => chunk_bound, counted_ingestMarkdown text, ?_⟩
    rw [hwords]
    split
    · rfl
    · rename_i hsections
      obtain hplain | hblank := h
      · exact absurd (hnone.mpr hplain) hsections
      · rw [List.flatMap_eq_nil_iff.mpr fun line hline =>
          Words.words_of_trim_eq_nil (hblank line hline)]
        rfl

/-- The line before the heading is in no chunk. -/
theorem not_dropsNothing : ¬ ∀ (remember : Text → MemoryType → List Text → Except String String)
    (lower : Text → Text) (tags : List Text) (text : Text),
      DropsNothing remember lower tags text := by
  intro h
  have hstarts := (dropsNothing_iff _ _ _ _).mp
    (h (fun _ _ _ => .ok "") id [] "Read this first.\n## Setup\nRun it.".toList)
  revert hstarts
  decide +kernel

end ApexOS.Cerebro.Ingest
