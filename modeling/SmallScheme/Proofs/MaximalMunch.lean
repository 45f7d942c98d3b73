import SmallScheme.Proofs.Lexing

/-!
What the tokens of a text are. They are the only tokens that make up the text when blanks are put around
them, at least one between two words; nothing but blanks is lost. The same tokens come from putting a
space on either side of every parenthesis and then cutting the text at blanks.
-/

set_option autoImplicit false
set_option relaxedAutoImplicit false

namespace SmallScheme.Token

/-- The tokens that a text can have: the parentheses and the proper words. -/
def IsLexeme : Token → Prop
  | .word text => IsWord text
  | _ => True

def Blanks (gap : List Char) : Prop :=
  ∀ c ∈ gap, Text.isBlank c = true

/-- Two words. They run together if nothing stands between them. -/
def Merge : Token → Token → Prop
  | .word _, .word _ => True
  | _, _ => False

/-- The tokens make up the text, each with the blanks that follow it. There may be none, but between two
words there is one at least. -/
inductive Renders : List Token → List Char → Prop
  | nil : Renders [] []
  | cons {t : Token} {ts : List Token} {gap rest : List Char} : t.IsLexeme → Blanks gap →
      (∀ u ∈ ts.head?, Merge t u → gap ≠ []) → Renders ts rest →
      Renders (t :: ts) (t.text.toList ++ gap ++ rest)

/-- The tokens make up the text, with blanks before them, between them and after them. -/
def LaidOut (tokens : List Token) (source : List Char) : Prop :=
  ∃ gap rest, Blanks gap ∧ Renders tokens rest ∧ source = gap ++ rest

private theorem scan_blanks {gap : List Char} (blank : Blanks gap) (rest : List Char) :
    scan (gap ++ rest) = scan rest := by
  induction gap with
  | nil => rfl
  | cons c gap ih =>
    obtain ⟨first, others⟩ := List.forall_mem_cons.mp blank
    rw [List.cons_append, scan_cons_delimiter (isDelimiter_of_isBlank first),
      ofDelimiter_of_isBlank first, List.nil_append, ih others]

private theorem Renders.starts {text : String} {ts : List Token} {gap rest : List Char}
    (blank : Blanks gap) (apart : ∀ u ∈ ts.head?, Merge (.word text) u → gap ≠ [])
    (renders : Renders ts rest) : ∀ c ∈ (gap ++ rest).head?, isDelimiter c = true := by
  cases gap with
  | cons c gap =>
    rintro _ ⟨⟩
    exact isDelimiter_of_isBlank (blank c List.mem_cons_self)
  | nil =>
    cases renders with
    | nil => simp
    | @cons u _ _ _ _ _ _ _ =>
      cases u with
      | word other => exact absurd rfl (apart _ rfl trivial)
      | opening =>
        rintro _ ⟨⟩
        decide
      | closing =>
        rintro _ ⟨⟩
        decide

/-- Tokens that make up a text are those that are found in it. -/
theorem Renders.scan_eq {tokens : List Token} {source : List Char} (h : Renders tokens source) :
    scan source = tokens := by
  induction h with
  | nil => rfl
  | @cons t ts gap rest lexeme blank apart renders ih =>
    have later : scan (gap ++ rest) = ts := (scan_blanks blank rest).trans ih
    rw [List.append_assoc]
    cases t with
    | opening =>
      change scan ('(' :: (gap ++ rest)) = _
      rw [scan_cons_delimiter (by decide), later]
      rfl
    | closing =>
      change scan (')' :: (gap ++ rest)) = _
      rw [scan_cons_delimiter (by decide), later]
      rfl
    | word text =>
      have word : scan text.toList = [.word text] := tokenize_word lexeme
      rw [scan_append _ (Renders.starts blank apart renders), later]
      change scan text.toList ++ ts = _
      rw [word, List.singleton_append]

theorem LaidOut.scan_eq {tokens : List Token} {source : List Char} (h : LaidOut tokens source) :
    scan source = tokens := by
  obtain ⟨gap, rest, blank, renders, rfl⟩ := h
  rw [scan_blanks blank, renders.scan_eq]

/-- The text is the word of the cut and its tokens, with blanks between the word and the tokens if these
begin with a word. -/
def Cut.LaidOut (cut : Cut) (source : List Char) : Prop :=
  ∃ gap rest, Blanks gap ∧ Renders cut.tokens rest ∧ source = cut.word ++ gap ++ rest ∧
    ∀ text, .word text ∈ cut.tokens.head? → gap ≠ []

private theorem Cut.LaidOut.flush {cut : Cut} {source : List Char} (proper : CutProper cut)
    (h : cut.LaidOut source) : Token.LaidOut cut.flush source := by
  obtain ⟨gap, rest, blank, renders, rfl, apart⟩ := h
  by_cases none : cut.word = []
  · exact ⟨gap, rest, blank, by simpa [Cut.flush, none] using renders, by rw [none]; rfl⟩
  · have word : IsWord (String.ofList cut.word) := by
      refine ⟨fun empty => none ?_, by simpa using proper.1⟩
      simpa using congrArg String.toList empty
    refine ⟨[], _, List.forall_mem_nil _, ?_, rfl⟩
    have flushed : cut.flush = .word (String.ofList cut.word) :: cut.tokens := by
      simp [Cut.flush, none]
    rw [flushed]
    have separate : ∀ u ∈ cut.tokens.head?, Merge (.word (String.ofList cut.word)) u → gap ≠ [] := by
      rintro (_ | _ | text) hu merge
      · cases merge
      · cases merge
      · exact apart text hu
    simpa [Token.text] using Renders.cons (t := .word _) word blank separate renders

private theorem Cut.LaidOut.extend {cut : Cut} {source : List Char} (proper : CutProper cut)
    (h : cut.LaidOut source) (c : Char) : (cut.extend c).LaidOut (c :: source) := by
  cases hc : isDelimiter c with
  | false =>
    obtain ⟨gap, rest, blank, renders, rfl, apart⟩ := h
    rw [Cut.extend_other hc]
    exact ⟨gap, rest, blank, renders, rfl, apart⟩
  | true =>
    obtain ⟨gap, rest, blank, renders, rfl⟩ := h.flush proper
    rw [Cut.extend_delimiter hc]
    by_cases opens : c = '('
    · subst opens
      exact ⟨[], _, List.forall_mem_nil _, .cons (t := .opening) trivial blank nofun renders, rfl,
        nofun⟩
    by_cases closes : c = ')'
    · subst closes
      exact ⟨[], _, List.forall_mem_nil _, .cons (t := .closing) trivial blank nofun renders, rfl,
        nofun⟩
    have first : Text.isBlank c = true := by simpa [isDelimiter, opens, closes] using hc
    rw [ofDelimiter_of_isBlank first]
    exact ⟨c :: gap, rest, List.forall_mem_cons.mpr ⟨first, blank⟩, renders, rfl, by simp⟩

private theorem laidOut_foldr (source : List Char) :
    (source.foldr Cut.extend ⟨[], []⟩).LaidOut source := by
  induction source with
  | nil => exact ⟨[], [], List.forall_mem_nil _, .nil, rfl, nofun⟩
  | cons c source ih => exact ih.extend (cutProper_foldr source) c

theorem laidOut_scan (source : List Char) : LaidOut (scan source) source :=
  (laidOut_foldr source).flush (cutProper_foldr source)

private theorem IsLexeme.isBlank_eq_false {t : Token} (h : t.IsLexeme) :
    ∀ c ∈ t.text.toList, Text.isBlank c = false := by
  cases t with
  | opening => exact List.forall_mem_singleton.mpr (by decide : Text.isBlank '(' = false)
  | closing => exact List.forall_mem_singleton.mpr (by decide : Text.isBlank ')' = false)
  | word text =>
    intro c hc
    have whole := h.2 c hc
    simp only [isDelimiter, Bool.or_eq_false_iff] at whole
    exact whole.2

private theorem Blanks.filter_eq_nil {gap : List Char} (blank : Blanks gap) :
    gap.filter (!Text.isBlank ·) = [] :=
  List.filter_eq_nil_iff.mpr fun c hc => by simp [blank c hc]

private theorem Renders.flatMap_text {tokens : List Token} {source : List Char}
    (h : Renders tokens source) :
    tokens.flatMap (·.text.toList) = source.filter (!Text.isBlank ·) := by
  induction h with
  | nil => rfl
  | @cons t ts gap rest lexeme blank _ _ ih =>
    have kept : t.text.toList.filter (!Text.isBlank ·) = t.text.toList :=
      List.filter_eq_self.mpr fun c hc => by simp [lexeme.isBlank_eq_false c hc]
    rw [List.flatMap_cons, ih, List.filter_append, List.filter_append, kept, blank.filter_eq_nil,
      List.append_nil]

theorem LaidOut.flatMap_text {tokens : List Token} {source : List Char} (h : LaidOut tokens source) :
    tokens.flatMap (·.text.toList) = source.filter (!Text.isBlank ·) := by
  obtain ⟨gap, rest, blank, renders, rfl⟩ := h
  rw [renders.flatMap_text, List.filter_append, blank.filter_eq_nil, List.nil_append]

/-- The text with a space on either side of every such mark. -/
def spaced (mark : Char) (source : List Char) : List Char :=
  source.flatMap fun c => if c = mark then [' ', c, ' '] else [c]

/-- The text with a space on either side of every parenthesis. -/
def padded (source : List Char) : List Char :=
  spaced ')' (spaced '(' source)

/-- The tokens that are spelled by the pieces of a text. Empty pieces are left out. -/
def ofPieces (pieces : List (List Char)) : List Token :=
  (pieces.filter (· ≠ [])).map fun piece => ofText (String.ofList piece)

private theorem padded_parenthesis {c : Char} (h : c = '(' ∨ c = ')') (source : List Char) :
    padded (c :: source) = ' ' :: c :: ' ' :: padded source := by
  rcases h with rfl | rfl <;> rfl

private theorem padded_other {c : Char} (ho : c ≠ '(') (hl : c ≠ ')') (source : List Char) :
    padded (c :: source) = c :: padded source := by
  simp [padded, spaced, ho, hl]

private theorem ofPieces_nil_cons (pieces : List (List Char)) :
    ofPieces ([] :: pieces) = ofPieces pieces := rfl

private theorem ofPieces_flush {cut : Cut} (proper : CutProper cut) {pieces : List (List Char)}
    (h : ofPieces pieces = cut.tokens) : ofPieces (cut.word :: pieces) = cut.flush := by
  by_cases none : cut.word = []
  · rw [none, ofPieces_nil_cons, h]
    simp [Cut.flush, none]
  · have name : ∀ mark, isDelimiter mark = true → String.ofList cut.word ≠ String.singleton mark := by
      intro mark delimits same
      have only : cut.word = [mark] := by simpa using congrArg String.toList same
      have inside := proper.1 mark (only ▸ List.mem_singleton_self mark)
      rw [delimits] at inside
      cases inside
    have word : ofText (String.ofList cut.word) = .word (String.ofList cut.word) := by
      have opens : String.ofList cut.word ≠ "(" := name '(' (by decide)
      have closes : String.ofList cut.word ≠ ")" := name ')' (by decide)
      simp [ofText, opens, closes]
    have first : ofPieces (cut.word :: pieces) =
        ofText (String.ofList cut.word) :: ofPieces pieces := by
      simp [ofPieces, none]
    rw [first, word, h]
    simp [Cut.flush, none]

private theorem splitOnP_padded (source : List Char) :
    ∃ more, (padded source).splitOnP Text.isBlank =
        (source.foldr Cut.extend ⟨[], []⟩).word :: more ∧
      ofPieces more = (source.foldr Cut.extend ⟨[], []⟩).tokens := by
  -- From the right, as the text is scanned: one more character joins the first piece or begins one.
  induction source with
  | nil => exact ⟨[], rfl, rfl⟩
  | cons c source ih =>
    obtain ⟨more, split, tokens⟩ := ih
    have flushed := ofPieces_flush (cutProper_foldr source) tokens
    have space : Text.isBlank ' ' = true := by decide
    rw [List.foldr_cons]
    cases hc : isDelimiter c with
    | false =>
      have plain : c ≠ '(' ∧ c ≠ ')' ∧ Text.isBlank c = false := by
        simpa [isDelimiter, and_assoc] using hc
      rw [padded_other plain.1 plain.2.1, Cut.extend_other hc]
      exact ⟨more, by simp [List.splitOnP_cons_eq_if_modifyHead, plain.2.2, split], tokens⟩
    | true =>
      rw [Cut.extend_delimiter hc]
      by_cases mark : c = '(' ∨ c = ')'
      · have inked : Text.isBlank c = false := by rcases mark with rfl | rfl <;> decide
        have spelled : ofPieces [[c]] = ofDelimiter c := by rcases mark with rfl | rfl <;> decide
        refine ⟨[c] :: (source.foldr Cut.extend ⟨[], []⟩).word :: more, ?_, ?_⟩
        · rw [padded_parenthesis mark]
          simp [List.splitOnP_cons_eq_if_modifyHead, space, inked, split]
        · rw [← flushed, ← spelled]
          simp [ofPieces]
      · obtain ⟨ho, hl⟩ := not_or.mp mark
        have blank : Text.isBlank c = true := by simpa [isDelimiter, ho, hl] using hc
        refine ⟨(source.foldr Cut.extend ⟨[], []⟩).word :: more, ?_, ?_⟩
        · rw [padded_other ho hl]
          simp [List.splitOnP_cons_eq_if_modifyHead, blank, split]
        · rw [flushed, ofDelimiter_of_isBlank blank, List.nil_append]

/-- The tokens are the pieces of the padded text between blanks. -/
theorem scan_eq_ofPieces (source : List Char) :
    scan source = ofPieces ((padded source).splitOnP Text.isBlank) := by
  obtain ⟨more, split, tokens⟩ := splitOnP_padded source
  rw [split, ofPieces_flush (cutProper_foldr source) tokens]
  rfl

def blankCodes : List Nat :=
  [0x09, 0x0A, 0x0B, 0x0C, 0x0D, 0x1C, 0x1D, 0x1E, 0x1F, 0x20, 0x85, 0xA0, 0x1680, 0x2000, 0x2001,
    0x2002, 0x2003, 0x2004, 0x2005, 0x2006, 0x2007, 0x2008, 0x2009, 0x200A, 0x2028, 0x2029, 0x202F,
    0x205F, 0x3000]

theorem isBlank_iff (c : Char) : Text.isBlank c = true ↔ c.toNat ∈ blankCodes := by
  unfold Text.isBlank
  generalize c.toNat = n
  simp only [Text.blankRanges, Text.Ranges.contains, blankCodes, Bool.or_false, Bool.if_false_left,
    Bool.and_eq_true, Bool.not_eq_eq_eq_not, Bool.not_true, Bool.or_eq_true, decide_eq_false_iff_not,
    decide_eq_true_eq, Nat.not_lt, List.mem_cons, List.not_mem_nil, or_false]
  omega

/-- The tokens of a text are the only ones that make it up, with blanks before, between and after them
and at least one blank between two words. No other character than a blank is lost, and none is added or
moved. A text can be cut at every blank and every parenthesis. Spacing out the parentheses and cutting
at blanks gives the same tokens. -/
theorem tokenize_maximal_munch :
    (∀ source tokens, LaidOut tokens source.toList ↔ tokens = tokenize source) ∧
      (∀ source, (tokenize source).flatMap (·.text.toList) =
        source.toList.filter (!Text.isBlank ·)) ∧
      (∀ a b c, c = '(' ∨ c = ')' ∨ Text.isBlank c = true →
        tokenize (a ++ String.singleton c ++ b) =
          tokenize a ++ tokenize (String.singleton c) ++ tokenize b) ∧
      (∀ source, tokenize source = ofPieces ((padded source.toList).splitOnP Text.isBlank)) ∧
      ∀ c, Text.isBlank c = true ↔ c.toNat ∈ blankCodes := by
  refine ⟨fun source tokens => ?_, fun source => ?_, fun a b c cuts => ?_, fun source => ?_,
    isBlank_iff⟩
  · constructor
    · intro laidOut
      exact laidOut.scan_eq.symm
    · rintro rfl
      exact laidOut_scan source.toList
  · exact (laidOut_scan source.toList).flatMap_text
  · have delimits : isDelimiter c = true := by
      rcases cuts with rfl | rfl | blank
      · decide
      · decide
      · exact isDelimiter_of_isBlank blank
    have mark : scan [c] = ofDelimiter c := by
      rw [scan_cons_delimiter delimits, scan_nil, List.append_nil]
    simp [tokenize, scan_append_delimiter _ _ delimits, mark]
  · exact scan_eq_ofPieces source.toList

theorem tokenize_maximal_munch_touching_parentheses :
    LaidOut [.opening, .word "a", .word "b", .closing, .word "c"] "(a\u00A0b)c".toList ∧
      Text.isBlank '\u00A0' = true ∧
      tokenize ("(a" ++ String.singleton '\u00A0' ++ "b)c") =
        tokenize "(a" ++ tokenize (String.singleton '\u00A0') ++ tokenize "b)c" := by
  obtain ⟨only, -, cut, -, -⟩ := tokenize_maximal_munch
  have blank : Text.isBlank '\u00A0' = true := by decide
  exact ⟨(only "(a\u00A0b)c" _).mpr rfl, blank, cut "(a" "b)c" '\u00A0' (.inr (.inr blank))⟩

end SmallScheme.Token
