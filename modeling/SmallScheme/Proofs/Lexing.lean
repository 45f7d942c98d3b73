import SmallScheme.Token

/-!
Tokens of texts put together. A delimiter, which is a parenthesis or a blank, cuts a text into two parts
that are scanned apart, so texts joined by blanks give the tokens of the parts in order. A word is
a run of characters without a delimiter, and words are all that is scanned besides parentheses.
-/

set_option autoImplicit false
set_option relaxedAutoImplicit false

namespace SmallScheme.Token

def isDelimiter (c : Char) : Bool :=
  c = '(' || c = ')' || Text.isBlank c

def ofDelimiter (c : Char) : List Token :=
  if c = '(' then [.opening] else if c = ')' then [.closing] else []

/-- A text that is scanned as one word. -/
def IsWord (text : String) : Prop :=
  text ≠ "" ∧ ∀ c ∈ text.toList, isDelimiter c = false

theorem isDelimiter_of_isBlank {c : Char} (blank : Text.isBlank c = true) : isDelimiter c = true := by
  simp [isDelimiter, blank]

theorem Cut.extend_delimiter {c : Char} (hc : isDelimiter c = true) (cut : Cut) :
    cut.extend c = ⟨[], ofDelimiter c ++ cut.flush⟩ := by
  simp only [isDelimiter, Bool.or_eq_true, decide_eq_true_eq] at hc
  unfold Cut.extend ofDelimiter
  by_cases ho : c = '('
  · simp [ho]
  by_cases hl : c = ')'
  · simp [hl]
  have hb : Text.isBlank c = true := by simpa [ho, hl] using hc
  simp [ho, hl, hb]

theorem Cut.extend_other {c : Char} (hc : isDelimiter c = false) (cut : Cut) :
    cut.extend c = ⟨c :: cut.word, cut.tokens⟩ := by
  simp only [isDelimiter, Bool.or_eq_false_iff, decide_eq_false_iff_not] at hc
  simp [Cut.extend, hc.1.1, hc.1.2, hc.2]

private theorem flush_append (word : List Char) (ts us : List Token) :
    (Cut.mk word (ts ++ us)).flush = (Cut.mk word ts).flush ++ us := by
  unfold Cut.flush
  split <;> rfl

private theorem foldr_extend_append (source word : List Char) (ts us : List Token) :
    source.foldr Cut.extend ⟨word, ts ++ us⟩ =
      ⟨(source.foldr Cut.extend ⟨word, ts⟩).word,
        (source.foldr Cut.extend ⟨word, ts⟩).tokens ++ us⟩ := by
  induction source with
  | nil => rfl
  | cons c source ih =>
    simp only [List.foldr_cons, ih]
    cases hc : isDelimiter c with
    | true =>
      rw [Cut.extend_delimiter hc, Cut.extend_delimiter hc, flush_append, List.append_assoc]
    | false => rw [Cut.extend_other hc, Cut.extend_other hc]

theorem scan_append_delimiter (a b : List Char) {c : Char} (hc : isDelimiter c = true) :
    scan (a ++ c :: b) = scan a ++ ofDelimiter c ++ scan b := by
  have h := foldr_extend_append a [] [] (ofDelimiter c ++ scan b)
  rw [List.nil_append] at h
  simp only [scan, List.foldr_append, List.foldr_cons, Cut.extend_delimiter hc] at h ⊢
  rw [h, flush_append, List.append_assoc]

theorem scan_nil : scan [] = [] := rfl

theorem scan_cons_delimiter {c : Char} (hc : isDelimiter c = true) (rest : List Char) :
    scan (c :: rest) = ofDelimiter c ++ scan rest := by
  simpa [scan_nil] using scan_append_delimiter [] rest hc

/-- A text is cut where a delimiter follows. -/
theorem scan_append (a : List Char) {b : List Char} (starts : ∀ c ∈ b.head?, isDelimiter c = true) :
    scan (a ++ b) = scan a ++ scan b := by
  cases b with
  | nil => rw [List.append_nil, scan_nil, List.append_nil]
  | cons c b =>
    have hc : isDelimiter c = true := starts c rfl
    rw [scan_append_delimiter a b hc, scan_cons_delimiter hc, List.append_assoc]

theorem ofDelimiter_of_isBlank {c : Char} (blank : Text.isBlank c = true) : ofDelimiter c = [] := by
  have ho : c ≠ '(' := by rintro rfl; exact absurd blank (by decide)
  have hl : c ≠ ')' := by rintro rfl; exact absurd blank (by decide)
  simp [ofDelimiter, ho, hl]

private theorem foldr_extend_word {word : List Char} (h : ∀ c ∈ word, isDelimiter c = false) :
    word.foldr Cut.extend ⟨[], []⟩ = ⟨word, []⟩ := by
  induction word with
  | nil => rfl
  | cons c word ih =>
    rw [List.foldr_cons, ih fun d hd => h d (List.mem_cons_of_mem c hd),
      Cut.extend_other (h c List.mem_cons_self)]

theorem tokenize_word {text : String} (h : IsWord text) : tokenize text = [.word text] := by
  have hne : text.toList ≠ [] := fun he => h.1 (String.toList_eq_nil_iff.mp he)
  rw [tokenize, scan, foldr_extend_word h.2]
  simp [Cut.flush, hne]

/-- What is known of a cut: its word has no delimiter, and its tokens hold proper words only. -/
def CutProper (cut : Cut) : Prop :=
  (∀ c ∈ cut.word, isDelimiter c = false) ∧ ∀ text, .word text ∈ cut.tokens → IsWord text

private theorem CutProper.flush {cut : Cut} (h : CutProper cut) :
    ∀ text, .word text ∈ cut.flush → IsWord text := by
  intro text hm
  unfold Cut.flush at hm
  split at hm
  · exact h.2 text hm
  · rename_i hw
    rcases List.mem_cons.mp hm with he | hm
    · cases he
      refine ⟨fun he => hw ?_, fun c hc => h.1 c (by simpa using hc)⟩
      simpa using congrArg String.toList he
    · exact h.2 text hm

private theorem CutProper.extend {cut : Cut} (h : CutProper cut) (c : Char) :
    CutProper (cut.extend c) := by
  cases hc : isDelimiter c with
  | true =>
    rw [Cut.extend_delimiter hc]
    refine ⟨by simp, fun text hm => ?_⟩
    rcases List.mem_append.mp hm with hm | hm
    · unfold ofDelimiter at hm
      split at hm
      · simp at hm
      · split at hm <;> simp at hm
    · exact h.flush text hm
  | false =>
    rw [Cut.extend_other hc]
    refine ⟨fun d hd => ?_, h.2⟩
    rcases List.mem_cons.mp hd with rfl | hd
    · exact hc
    · exact h.1 d hd

theorem cutProper_foldr (source : List Char) : CutProper (source.foldr Cut.extend ⟨[], []⟩) := by
  induction source with
  | nil => exact ⟨by simp, by simp⟩
  | cons c source ih => exact ih.extend c

theorem isWord_of_mem_tokenize {source text : String} (h : .word text ∈ tokenize source) :
    IsWord text :=
  (cutProper_foldr source.toList).flush text h

/-- Texts joined by a blank have the tokens of the parts. -/
theorem tokenize_intercalate {separator : String} {c : Char} (hs : separator.toList = [c])
    (blank : Text.isBlank c = true) (parts : List String) :
    tokenize (separator.intercalate parts) = parts.flatMap tokenize := by
  have hc := isDelimiter_of_isBlank blank
  induction parts with
  | nil => rfl
  | cons part parts ih =>
    cases parts with
    | nil => simp [tokenize]
    | cons next parts =>
      rw [List.flatMap_cons, ← ih, String.intercalate_cons_cons]
      simp only [tokenize, String.toList_append, hs]
      rw [List.append_assoc, List.singleton_append, scan_append_delimiter _ _ hc,
        ofDelimiter_of_isBlank blank, List.append_nil]

theorem tokenize_lines (lines : List String) :
    tokenize ("\n".intercalate lines) = lines.flatMap tokenize :=
  tokenize_intercalate rfl (by decide) lines

theorem tokenize_parenthesised (text : String) :
    tokenize ("(" ++ text ++ ")") = .opening :: (tokenize text ++ [.closing]) := by
  have ho : isDelimiter '(' = true := by decide
  have hl : isDelimiter ')' = true := by decide
  have hopen := scan_append_delimiter [] (text.toList ++ [')']) ho
  have hclose := scan_append_delimiter text.toList [] hl
  rw [List.nil_append, scan_nil, List.nil_append, hclose, scan_nil, List.append_nil] at hopen
  simpa [tokenize, ofDelimiter] using hopen

private theorem nesting_mono {d d' : Nat} (h : d ≤ d') (t : Token) :
    nesting d t ≤ nesting d' t := by
  cases t <;> simp only [nesting] <;> omega

private theorem foldl_nesting_mono {d d' : Nat} (h : d ≤ d') (tokens : List Token) :
    tokens.foldl nesting d ≤ tokens.foldl nesting d' := by
  induction tokens generalizing d d' with
  | nil => exact h
  | cons t tokens ih => exact ih (nesting_mono h t)

theorem foldl_nesting_eq_zero {d d' : Nat} (h : d ≤ d') {tokens : List Token}
    (closed : tokens.foldl nesting d' = 0) : tokens.foldl nesting d = 0 := by
  have := foldl_nesting_mono h tokens
  omega

theorem needsMore_eq_false_iff {tokens : List Token} :
    needsMore tokens = false ↔ tokens.foldl nesting 0 = 0 := by
  simp [needsMore]

/-- After complete tokens it is the later tokens that decide whether a list is open. -/
theorem needsMore_append {first : List Token} (h : needsMore first = false) (second : List Token) :
    needsMore (first ++ second) = needsMore second := by
  unfold needsMore
  rw [List.foldl_append, needsMore_eq_false_iff.mp h]

end SmallScheme.Token
