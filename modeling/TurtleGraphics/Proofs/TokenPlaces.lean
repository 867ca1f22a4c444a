import TurtleGraphics.Proofs.LoneBrackets
import TurtleGraphics.Proofs.Splitting

/-!
# TurtleGraphics.Proofs.TokenPlaces

Splitting a text into tokens loses nothing and places everything.

* `spelledOut`      : tokens as they are spelled, each behind a gap.
* `Consists`        : a text consists of tokens and gaps, and each token knows its place.
* `SplitInto`       : all of a text does.
* `StuckBehind`     : a text does up to where nothing can be read.
* `Tokenizes`       : the tokens of a text, or what it is refused for and where.
* `tokenize_eq_iff_tokenizes` : the tokenizer finds that out.

A text that cannot be split is refused for that even if a bracket before the place is wrong too.
-/

namespace TurtleGraphics

open TurtleGraphics.Text

/-! ## Tokens and gaps in a row -/

/-- Tokens as they are spelled, each behind a gap. -/
def spelledOut (pieces : List (List Char × Lexeme)) : List Char :=
  pieces.flatMap fun piece => piece.1 ++ piece.2.token.raw.toList

@[simp] theorem spelledOut_nil : spelledOut [] = [] := rfl

@[simp] theorem spelledOut_cons (gap : List Char) (l : Lexeme)
    (pieces : List (List Char × Lexeme)) :
    spelledOut ((gap, l) :: pieces) = gap ++ (l.token.raw.toList ++ spelledOut pieces) := by
  simp [spelledOut]

/-- The part of a text in front of `rest` consists of these tokens, each behind its gap. Each token
is placed where its spelling starts, and a name is followed by white space, by a bracket or by the
end of the text. -/
structure Consists (p : Place) (text : List Char) (pieces : List (List Char × Lexeme))
    (rest : List Char) : Prop where
  eq : text = spelledOut pieces ++ rest
  piece : ∀ before gap l after, pieces = before ++ (gap, l) :: after →
    Gap gap ∧ l.token.Spelled ∧ l.place = p.behind (spelledOut before ++ gap) ∧
      (l.token.isBracket = false → ∀ c, (spelledOut after ++ rest).head? = some c →
        isSpace c = true ∨ isBracket c = true)

theorem nameFollows_eq_false_iff {next : Option Char} :
    nameFollows next = false ↔ ∀ c, next = some c → isSpace c = true ∨ isBracket c = true := by
  cases next with
  | none => simp [nameFollows]
  | some c =>
    cases hs : isSpace c <;> cases hb : isBracket c <;> simp [nameFollows, isNameChar, hs, hb]

theorem consists_nil {p : Place} {text rest : List Char} :
    Consists p text [] rest ↔ text = rest := by
  constructor
  · exact fun h => h.eq
  · exact fun h => ⟨h, fun before gap l after heq => by simp at heq⟩

theorem consists_cons {p : Place} {text gap rest : List Char} {l : Lexeme}
    {pieces : List (List Char × Lexeme)} :
    Consists p text ((gap, l) :: pieces) rest ↔
      ∃ more, text = gap ++ (l.token.raw.toList ++ more) ∧ Gap gap ∧ l.token.Spelled ∧
        l.place = p.behind gap ∧ (l.token.isBracket = false → nameFollows more.head? = false) ∧
        Consists ((p.behind gap).behind l.token.raw.toList) more pieces rest := by
  constructor
  · rintro ⟨rfl, hpiece⟩
    obtain ⟨hgap, hl, hplace, hend⟩ := hpiece [] gap l pieces rfl
    refine ⟨spelledOut pieces ++ rest, by simp, hgap, hl, hplace, fun hb =>
      nameFollows_eq_false_iff.mpr (hend hb), rfl, ?_⟩
    rintro before gap' l' after rfl
    obtain ⟨hgap', hl', hplace', hend'⟩ := hpiece ((gap, l) :: before) gap' l' after rfl
    refine ⟨hgap', hl', ?_, hend'⟩
    rw [hplace', ← Place.behind_append, ← Place.behind_append]
    simp
  · rintro ⟨more, rfl, hgap, hl, hplace, hend, rfl, hpiece⟩
    refine ⟨by simp, fun before gap' l' after heq => ?_⟩
    cases before with
    | nil =>
      cases heq
      exact ⟨hgap, hl, hplace, fun hb => nameFollows_eq_false_iff.mp (hend hb)⟩
    | cons first before =>
      obtain ⟨rfl, rfl⟩ := List.cons.inj heq
      obtain ⟨hgap', hl', hplace', hend'⟩ := hpiece before gap' l' after rfl
      refine ⟨hgap', hl', ?_, hend'⟩
      rw [hplace', ← Place.behind_append, ← Place.behind_append]
      simp

/-- What is split consists of tokens and gaps, with a gap behind the last token. -/
theorem Splits.consists {p q : Place} {cs rest : List Char} {ls : List Lexeme}
    (h : Splits p cs ls q rest) :
    ∃ pieces gap, pieces.map Prod.snd = ls ∧ Gap gap ∧ Consists p cs pieces (gap ++ rest) ∧
      q = p.behind (spelledOut pieces ++ gap) := by
  induction h with
  | done => exact ⟨[], [], rfl, .nil, consists_nil.mpr rfl, by simp⟩
  | @skip p q first cs rest ls hfirst _ ih =>
    obtain ⟨pieces, gap, hls, hgap, hcs, rfl⟩ := ih
    cases pieces with
    | nil =>
      refine ⟨[], first ++ gap, hls, hfirst.append hgap, ?_, by simp [Place.behind_append]⟩
      rw [consists_nil] at hcs ⊢
      rw [hcs, List.append_assoc]
    | cons piece pieces =>
      obtain ⟨second, l⟩ := piece
      obtain ⟨more, rfl, hsecond, hl, hplace, hend, hmore⟩ := consists_cons.mp hcs
      refine ⟨(first ++ second, l) :: pieces, gap, hls, hgap, consists_cons.mpr
        ⟨more, by simp, hfirst.append hsecond, hl, ?_, hend, ?_⟩, ?_⟩
      · rw [hplace, Place.behind_append]
      · rwa [Place.behind_append]
      · rw [← Place.behind_append]
        simp
  | @token p q t cs rest ls ht hend _ ih =>
    obtain ⟨pieces, gap, rfl, hgap, hcs, rfl⟩ := ih
    refine ⟨([], ⟨t, p⟩) :: pieces, gap, rfl, hgap, consists_cons.mpr
      ⟨cs, rfl, .nil, ht, by simp, hend, by simpa using hcs⟩, ?_⟩
    rw [← Place.behind_append]
    simp

theorem Consists.splits {p : Place} {cs gap rest : List Char}
    {pieces : List (List Char × Lexeme)} (h : Consists p cs pieces (gap ++ rest)) (hgap : Gap gap) :
    Splits p cs (pieces.map Prod.snd) (p.behind (spelledOut pieces ++ gap)) rest := by
  induction pieces generalizing p cs with
  | nil =>
    rw [consists_nil.mp h]
    exact .skip hgap .done
  | cons piece pieces ih =>
    obtain ⟨first, l⟩ := piece
    obtain ⟨more, rfl, hfirst, hl, hplace, hend, hmore⟩ := consists_cons.mp h
    have hrest := ih hmore
    rw [← hplace] at hrest
    rw [spelledOut_cons, List.append_assoc, List.append_assoc, Place.behind_append,
      Place.behind_append, ← hplace]
    refine .skip hfirst ?_
    rw [← hplace]
    exact .token hl hend hrest

/-! ## Whole texts -/

/-- A text consists of these tokens and of gaps, the last of which may be a comment that no line
feed ends. -/
def SplitInto (text : List Char) (ls : List Lexeme) : Prop :=
  ∃ pieces gap ending, pieces.map Prod.snd = ls ∧ Consists .start text pieces (gap ++ ending) ∧
    Gap gap ∧ (ending = [] ∨ OpenComment ending)

/-- A text consists of tokens and gaps up to here, and behind that nothing can be read. -/
def StuckBehind (text before rest : List Char) : Prop :=
  ∃ pieces gap, Consists .start text pieces (gap ++ rest) ∧ Gap gap ∧
    before = spelledOut pieces ++ gap ∧ NoTerminal rest

theorem SplitInto.scan {text : List Char} {ls : List Lexeme} (h : SplitInto text ls) :
    TurtleGraphics.scan .gap .start text = .ok ls := by
  obtain ⟨pieces, gap, ending, rfl, htext, hgap, hending⟩ := h
  exact (htext.splits hgap).scan_of_ending hending

theorem StuckBehind.scan {text before after : List Char} {c : Char}
    (h : StuckBehind text before (c :: after)) :
    TurtleGraphics.scan .gap .start text = .error ⟨c, Place.start.behind before⟩ := by
  obtain ⟨pieces, gap, htext, hgap, rfl, hstuck⟩ := h
  rw [(htext.splits hgap).scan, hstuck.scan]
  rfl

/-- A text is split up to its end or up to where nothing can be read. -/
theorem splitInto_or_stuckBehind (text : List Char) :
    (∃ ls, SplitInto text ls) ∨ ∃ before c after, StuckBehind text before (c :: after) := by
  obtain ⟨ls, q, rest, hsplit, hrest⟩ := exists_splits .start text
  obtain ⟨pieces, gap, hls, hgap, htext, -⟩ := hsplit.consists
  obtain rfl | hopen | hstuck := hrest
  · exact .inl ⟨ls, pieces, gap, [], hls, htext, hgap, .inl rfl⟩
  · exact .inl ⟨ls, pieces, gap, rest, hls, htext, hgap, .inr hopen⟩
  · cases rest with
    | nil => exact .inl ⟨ls, pieces, gap, [], hls, htext, hgap, .inl rfl⟩
    | cons c rest => exact .inr ⟨_, c, rest, pieces, gap, htext, hgap, rfl, hstuck⟩

/-! ## What a text is split into -/

/-- The tokens of a text, or what it is refused for and where. -/
inductive Tokenizes (text : List Char) : Except LexError (List Lexeme) → Prop where
  | tokens {ls : List Lexeme} : SplitInto text ls → Balanced (tokensOf ls) →
      Tokenizes text (.ok ls)
  | stuck {before after : List Char} {c : Char} : StuckBehind text before (c :: after) →
      Tokenizes text (.error ⟨.unexpected c, Place.start.behind before⟩)
  | brackets {ls : List Lexeme} {e : LexError} : SplitInto text ls → BracketFault ls e →
      Tokenizes text (.error e)

theorem Tokenizes.tokenize {text : String} {result : Except LexError (List Lexeme)}
    (h : Tokenizes text.toList result) : TurtleGraphics.tokenize text = result := by
  cases h with
  | tokens hsplit hbalanced =>
    simp only [TurtleGraphics.tokenize, lexemes, hsplit.scan,
      unbalanced_eq_none_iff.mpr hbalanced]
  | stuck hstuck => simp only [TurtleGraphics.tokenize, lexemes, hstuck.scan]
  | brackets hsplit hfault =>
    simp only [TurtleGraphics.tokenize, lexemes, hsplit.scan, unbalanced_eq_some_iff.mpr hfault]

theorem exists_tokenizes (text : List Char) : ∃ result, Tokenizes text result := by
  obtain ⟨ls, hls⟩ | ⟨before, c, after, hstuck⟩ := splitInto_or_stuckBehind text
  · cases hcheck : unbalanced [] ls with
    | none => exact ⟨_, .tokens hls (unbalanced_eq_none_iff.mp hcheck)⟩
    | some e => exact ⟨_, .brackets hls (unbalanced_eq_some_iff.mp hcheck)⟩
  · exact ⟨_, .stuck hstuck⟩

/-- A text that is accepted consists of its tokens and gaps, with each token placed where its
spelling starts. A text that is refused is refused where nothing can be read, which is at a sigil
without a name and at white space that is not skipped, or if it can be read to its end for the
bracket at fault. -/
theorem tokenize_eq_iff_tokenizes :
    (∀ text result, tokenize text = result ↔ Tokenizes text.toList result) ∧
      ∀ c cs, NoTerminal (c :: cs) ↔ isSigil c = true ∧ nameFollows cs.head? = false ∨
        isSpace c = true ∧ isSkipped c = false := by
  refine ⟨fun text result => ⟨?_, Tokenizes.tokenize⟩, fun c cs => noTerminal_cons_iff⟩
  rintro rfl
  obtain ⟨result, h⟩ := exists_tokenizes text.toList
  rwa [h.tokenize]

/-- The place of a colon without a name is found behind a comment, and a bracket before it that has
no partner does not come first. -/
example : tokenize "A ] // ]\r\n\t: B" = .error ⟨.unexpected ':', ⟨2, 2⟩⟩ := by decide +kernel

end TurtleGraphics
