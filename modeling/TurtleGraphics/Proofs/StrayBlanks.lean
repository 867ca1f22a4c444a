import TurtleGraphics.Proofs.TokenPlaces

/-!
# TurtleGraphics.Proofs.StrayBlanks

White space that ends a name and is not skipped behind it.

* `isStray`       : the characters of which that is true.
* `isStray_iff`   : their code points.
* `ReadUpTo`      : a text consists of tokens and gaps up to here.
* `SigilAlone`, `StrayBlank`, `BracketAlone` : what a text can be refused for.
* `tokenize_eq_error_iff` : a text is refused for one of these and for nothing else.
* `tokenize_refuses_iff`  : so white space only separates, in a text without stray characters.
* `tokenize_refuses_no_break_space` : and in others it may not.

There is no need to ask whether a stray character stands in a comment. A text that is read up to a
comment is read up to its end or up to the next line, never up to a character of the comment.
-/

namespace TurtleGraphics

open TurtleGraphics.Text

/-! ## Stray characters -/

/-- White space that may not stand between tokens. -/
def isStray (c : Char) : Bool := isSpace c && !isSkipped c

theorem isStray_eq_true {c : Char} : isStray c = true ↔ isSpace c = true ∧ isSkipped c = false := by
  simp [isStray]

/-- All white space but the space, the tab, the form feed and the two line ends is stray. -/
theorem isStray_iff (c : Char) :
    isStray c = true ↔
      c.toNat ∈ [0x0b, 0x1c, 0x1d, 0x1e, 0x1f, 0x85, 0xa0, 0x1680, 0x2000, 0x2001, 0x2002, 0x2003,
        0x2004, 0x2005, 0x2006, 0x2007, 0x2008, 0x2009, 0x200a, 0x2028, 0x2029, 0x202f, 0x205f,
        0x3000] := by
  have hcode : ∀ d : Char, c = d ↔ c.toNat = d.toNat := fun d => Char.toNat_inj.symm
  have hskipped : ' '.toNat = 0x20 ∧ '\t'.toNat = 0x09 ∧ '\x0c'.toNat = 0x0c ∧
      '\r'.toNat = 0x0d ∧ '\n'.toNat = 0x0a := by decide
  simp only [isStray_eq_true, isSpace, isSkipped, Bool.or_eq_true, Bool.and_eq_true,
    decide_eq_true_eq, beq_iff_eq, Bool.or_eq_false_iff, beq_eq_false_iff_ne, ne_eq, hcode,
    hskipped, List.mem_cons, List.not_mem_nil, or_false]
  omega

/-! ## Reading up to a place -/

/-- A text consists of tokens and gaps up to this place, where the rest of it starts. -/
def ReadUpTo (text : List Char) (p : Place) (rest : List Char) : Prop :=
  ∃ ls, Splits .start text ls p rest

theorem Splits.suffix {p q : Place} {cs rest : List Char} {ls : List Lexeme}
    (h : Splits p cs ls q rest) : rest <:+ cs := by
  induction h with
  | done => exact List.suffix_rfl
  | skip _ _ ih => exact ih.trans (List.suffix_append _ _)
  | token _ _ _ ih => exact ih.trans (List.suffix_append _ _)

theorem Splits.trans {p q r : Place} {cs mid rest : List Char} {ls ms : List Lexeme}
    (h : Splits p cs ls q mid) (hmid : Splits q mid ms r rest) : Splits p cs (ls ++ ms) r rest := by
  induction h with
  | done => exact hmid
  | skip hgap _ ih => exact .skip hgap (ih hmid)
  | token ht hend _ ih => exact .token ht hend (ih hmid)

namespace ReadUpTo

variable {text rest : List Char} {p : Place} {c : Char}

theorem mem (h : ReadUpTo text p (c :: rest)) : c ∈ text := by
  obtain ⟨ls, hsplit⟩ := h
  exact hsplit.suffix.subset List.mem_cons_self

/-- A token that white space follows is read as a whole. -/
theorem token {t : Token} (ht : t.Spelled) (hc : isSpace c = true)
    (h : ReadUpTo text p (t.raw.toList ++ c :: rest)) :
    ReadUpTo text (p.behind t.raw.toList) (c :: rest) := by
  obtain ⟨ls, hsplit⟩ := h
  have hend : nameFollows (c :: rest).head? = false := by simp [nameFollows, isNameChar, hc]
  exact ⟨_, hsplit.trans (.token ht (fun _ => hend) .done)⟩

end ReadUpTo

/-! ## What a text is refused for -/

/-- Where a token may start there is a sigil, and no name behind it. -/
def SigilAlone (text : List Char) (e : LexError) : Prop :=
  ∃ p c rest, ReadUpTo text p (c :: rest) ∧ isSigil c = true ∧ nameFollows rest.head? = false ∧
    e = ⟨.unexpected c, p⟩

/-- Where a token may start there is a stray character. -/
def StrayBlank (text : List Char) (e : LexError) : Prop :=
  ∃ p c rest, ReadUpTo text p (c :: rest) ∧ isStray c = true ∧ e = ⟨.unexpected c, p⟩

/-- A text can be read to its end, and a bracket in it has no partner. -/
def BracketAlone (text : List Char) (e : LexError) : Prop :=
  ∃ ls, SplitInto text ls ∧ BracketFault ls e

/-- Nothing can be read at a stray character and at a sigil without a name, and at no other. -/
theorem noTerminal_cons_iff_isStray {c : Char} {cs : List Char} :
    NoTerminal (c :: cs) ↔ isSigil c = true ∧ nameFollows cs.head? = false ∨ isStray c = true := by
  rw [isStray_eq_true, noTerminal_cons_iff]

theorem ReadUpTo.tokenize {text : String} {p : Place} {c : Char} {rest : List Char}
    (h : ReadUpTo text.toList p (c :: rest)) (hstuck : NoTerminal (c :: rest)) :
    TurtleGraphics.tokenize text = .error ⟨.unexpected c, p⟩ := by
  obtain ⟨ls, hsplit⟩ := h
  simp only [TurtleGraphics.tokenize, lexemes, hsplit.scan, hstuck.scan, Except.map]

/-- A text is refused for a sigil without a name, for a stray character, or for a bracket without a
partner. -/
theorem tokenize_eq_error_iff {text : String} {e : LexError} :
    tokenize text = .error e ↔
      SigilAlone text.toList e ∨ StrayBlank text.toList e ∨ BracketAlone text.toList e := by
  constructor
  · intro h
    obtain ⟨result, hresult⟩ := exists_tokenizes text.toList
    obtain rfl : result = .error e := hresult.tokenize.symm.trans h
    cases hresult with
    | stuck hstuck =>
      obtain ⟨pieces, gap, htext, hgap, rfl, hnone⟩ := hstuck
      have hread : ReadUpTo text.toList _ _ := ⟨_, htext.splits hgap⟩
      obtain ⟨hsigil, hname⟩ | hstray := noTerminal_cons_iff_isStray.mp hnone
      · exact .inl ⟨_, _, _, hread, hsigil, hname, rfl⟩
      · exact .inr (.inl ⟨_, _, _, hread, hstray, rfl⟩)
    | brackets hsplit hfault => exact .inr (.inr ⟨_, hsplit, hfault⟩)
  · rintro (⟨p, c, rest, hread, hsigil, hname, rfl⟩ | ⟨p, c, rest, hread, hstray, rfl⟩ |
      ⟨ls, hsplit, hfault⟩)
    · exact hread.tokenize (noTerminal_cons_iff_isStray.mpr (.inl ⟨hsigil, hname⟩))
    · exact hread.tokenize (noTerminal_cons_iff_isStray.mpr (.inr hstray))
    · exact (Tokenizes.brackets hsplit hfault).tokenize

theorem StrayBlank.exists_isStray {text : List Char} {e : LexError} (h : StrayBlank text e) :
    ∃ c ∈ text, isStray c = true := by
  obtain ⟨p, c, rest, hread, hstray, -⟩ := h
  exact ⟨c, hread.mem, hstray⟩

/-! ## Texts -/

/-- A text is refused for a sigil without a name, for a bracket without a partner, or for a stray
character where a token may start. Without stray characters in it, it is refused for the first two
only. White space that ends a token is skipped, or it is stray and the text is refused for it. The
stray characters are all white space but the space, the tab, the form feed and the two line
ends. -/
theorem tokenize_refuses_iff (text : String) :
    (∀ e, tokenize text = .error e ↔
      SigilAlone text.toList e ∨ StrayBlank text.toList e ∨ BracketAlone text.toList e) ∧
    ((∀ c ∈ text.toList, isStray c = false) → ∀ e, tokenize text = .error e ↔
      SigilAlone text.toList e ∨ BracketAlone text.toList e) ∧
    (∀ (p : Place) (t : Token) (c : Char) (rest : List Char), t.Spelled →
      ReadUpTo text.toList p (t.raw.toList ++ c :: rest) → isSpace c = true →
      isSkipped c = true ∨
        isStray c = true ∧ tokenize text = .error ⟨.unexpected c, p.behind t.raw.toList⟩) ∧
    ∀ c, isStray c = true ↔
      c.toNat ∈ [0x0b, 0x1c, 0x1d, 0x1e, 0x1f, 0x85, 0xa0, 0x1680, 0x2000, 0x2001, 0x2002, 0x2003,
        0x2004, 0x2005, 0x2006, 0x2007, 0x2008, 0x2009, 0x200a, 0x2028, 0x2029, 0x202f, 0x205f,
        0x3000] := by
  refine ⟨fun e => tokenize_eq_error_iff, fun hplain e => ?_, fun p t c rest ht hread hspace => ?_,
    isStray_iff⟩
  · have hnone : ¬ StrayBlank text.toList e := by
      intro h
      obtain ⟨c, hmem, hstray⟩ := h.exists_isStray
      rw [hplain c hmem] at hstray
      cases hstray
    rw [tokenize_eq_error_iff, or_iff_right hnone]
  · cases hskipped : isSkipped c with
    | true => exact .inl rfl
    | false =>
      have hstray : isStray c = true := isStray_eq_true.mpr ⟨hspace, hskipped⟩
      have hbehind := hread.token ht hspace
      exact .inr ⟨hstray, hbehind.tokenize (noTerminal_cons_iff_isStray.mpr (.inr hstray))⟩

/-- There is no sigil and no bracket in the text, and it is refused for the space in it, which is
one that no line may be broken at. -/
theorem tokenize_refuses_no_break_space :
    let text := "PENUP\u00a0PENDOWN"
    tokenize text = .error ⟨.unexpected '\u00a0', ⟨1, 6⟩⟩ ∧ isSpace '\u00a0' = true ∧
      (∀ c ∈ text.toList, isSigil c = false ∧ isBracket c = false) ∧
      (∀ e, ¬ SigilAlone text.toList e) ∧ ∀ e, ¬ BracketAlone text.toList e := by
  intro text
  have htokenize : tokenize text = .error ⟨.unexpected '\u00a0', ⟨1, 6⟩⟩ := by decide +kernel
  have hall : text.toList.all (fun c => !isSigil c && !isBracket c) = true := by decide +kernel
  have hplain : ∀ c ∈ text.toList, isSigil c = false ∧ isBracket c = false := by
    simpa only [List.all_eq_true, Bool.and_eq_true, Bool.not_eq_true'] using hall
  refine ⟨htokenize, by decide, hplain, fun e he => ?_, fun e he => ?_⟩
  · obtain ⟨p, c, rest, hread, hsigil, -⟩ := he
    rw [(hplain c hread.mem).1] at hsigil
    cases hsigil
  · rw [tokenize_eq_error_iff.mpr (.inr (.inr he))] at htokenize
    cases htokenize
    obtain ⟨ls, -, hfault⟩ := he
    cases hfault

end TurtleGraphics
