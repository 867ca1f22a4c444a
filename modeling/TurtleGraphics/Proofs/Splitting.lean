import TurtleGraphics.Proofs.Spelling

/-!
# TurtleGraphics.Proofs.Splitting

How a text is split into tokens, said without a scanner.

* `Gap`           : what is skipped between tokens.
* `Splits`        : a part of a text consists of tokens and gaps, and no name could be longer.
* `NoTerminal`    : neither a token nor anything that is skipped starts a text.
* `noTerminal_cons_iff` : at which characters that is.
* `Splits.scan`   : a scan goes over what is split and on behind it.
* `splits_of_scan` : a text that scans to some tokens is split into them.
* `exists_splits` : every text is split up to its end, to a last comment, or to where nothing can
  start.

`Splits.scan` and `exists_splits` together determine every scan, so nothing has to be proved of a
scan that is in the middle of a name or a comment.
-/

namespace TurtleGraphics

open TurtleGraphics.Text

/-! ## Gaps -/

/-- White space and comments, each comment with the line feed that ends it. -/
inductive Gap : List Char → Prop where
  | nil : Gap []
  | blank {c : Char} {cs : List Char} : isSkipped c = true → Gap cs → Gap (c :: cs)
  | comment {text cs : List Char} : '\n' ∉ text → Gap cs →
      Gap ('/' :: '/' :: (text ++ '\n' :: cs))

/-- A comment at the end of a text, which no line feed ends. -/
def OpenComment (cs : List Char) : Prop := ∃ text, cs = '/' :: '/' :: text ∧ '\n' ∉ text

theorem Gap.append {cs ds : List Char} (h : Gap cs) (hd : Gap ds) : Gap (cs ++ ds) := by
  induction h with
  | nil => exact hd
  | blank hc _ ih => exact .blank hc ih
  | comment htext _ ih =>
    simp only [List.cons_append, List.append_assoc]
    exact .comment htext ih

/-! ## Splitting -/

/-- A part of a text, from one place to another, consists of these tokens with gaps between them.
What follows a name cannot belong to it. -/
inductive Splits : Place → List Char → List Lexeme → Place → List Char → Prop where
  | done {p : Place} {cs : List Char} : Splits p cs [] p cs
  | skip {p q : Place} {gap cs rest : List Char} {ls : List Lexeme} : Gap gap →
      Splits (p.behind gap) cs ls q rest → Splits p (gap ++ cs) ls q rest
  | token {p q : Place} {t : Token} {cs rest : List Char} {ls : List Lexeme} : t.Spelled →
      (t.isBracket = false → nameFollows cs.head? = false) →
      Splits (p.behind t.raw.toList) cs ls q rest →
      Splits p (t.raw.toList ++ cs) (⟨t, p⟩ :: ls) q rest

/-- Nothing that can be read starts a text: no white space that is skipped, no comment and no
token. -/
structure NoTerminal (cs : List Char) : Prop where
  blank : ∀ c, cs.head? = some c → isSkipped c = false
  comment : ¬ ['/', '/'] <+: cs
  token : ∀ t : Token, t.Spelled → ¬ t.raw.toList <+: cs

/-! ## Scanning what is split -/

theorem scan_comment_text {text : List Char} (htext : '\n' ∉ text) (p : Place) (cs : List Char) :
    scan .comment p (text ++ cs) = scan .comment (p.behind text) cs := by
  induction text generalizing p with
  | nil => rw [List.nil_append, Place.behind_nil]
  | cons c text ih =>
    have hc : c ≠ '\n' := fun hc => htext (hc ▸ List.mem_cons_self)
    have hstep : Mode.step? p c (text ++ cs).head? .comment = some ([], .comment) := by
      simp [Mode.step?, hc]
    rw [List.cons_append, scan_cons_nil hstep, ih fun hmem => htext (List.mem_cons_of_mem _ hmem),
      Place.behind_cons]

theorem scan_slashes (p : Place) (cs : List Char) :
    scan .gap p ('/' :: '/' :: cs) = scan .comment (p.behind ['/', '/']) cs := by
  have hstep : Mode.step? p '/' ('/' :: cs).head? .gap = some ([], .comment) := by
    simp [Mode.step?, begin?, isSkipped, isSpace]
  have hnext : Mode.step? (p.after '/') '/' cs.head? .comment = some ([], .comment) := rfl
  rw [scan_cons_nil hstep, scan_cons_nil hnext, Place.behind_cons, Place.behind_cons,
    Place.behind_nil]

theorem OpenComment.scan {cs : List Char} (h : OpenComment cs) (p : Place) :
    scan .gap p cs = .ok [] := by
  obtain ⟨text, rfl, htext⟩ := h
  have hall := scan_comment_text htext (p.behind ['/', '/']) []
  rw [List.append_nil] at hall
  rw [scan_slashes, hall]
  rfl

/-- Nothing comes of a gap. -/
theorem Gap.scan {gap : List Char} (h : Gap gap) (p : Place) (cs : List Char) :
    scan .gap p (gap ++ cs) = scan .gap (p.behind gap) cs := by
  induction h generalizing p with
  | nil => rw [List.nil_append, Place.behind_nil]
  | blank hc _ ih =>
    rw [List.cons_append, scan_skipped hc, ih, Place.behind_cons]
  | @comment text gap htext _ ih =>
    have hline : '/' :: '/' :: (text ++ '\n' :: gap) ++ cs =
        '/' :: '/' :: (text ++ '\n' :: (gap ++ cs)) := by simp
    have hend : Mode.step? ((p.behind ['/', '/']).behind text) '\n' (gap ++ cs).head? .comment =
        some ([], .gap) := rfl
    rw [hline, scan_slashes, scan_comment_text htext, scan_cons_nil hend, ih, ← Place.behind_cons,
      ← Place.behind_append, ← Place.behind_append]
    simp

/-- The scan of a text goes over what is split and on behind it. -/
theorem Splits.scan {p q : Place} {cs rest : List Char} {ls : List Lexeme}
    (h : Splits p cs ls q rest) :
    TurtleGraphics.scan .gap p cs = (TurtleGraphics.scan .gap q rest).map (ls ++ ·) := by
  induction h with
  | @done p cs => cases TurtleGraphics.scan .gap p cs <;> rfl
  | skip hgap _ ih => rw [hgap.scan, ih]
  | @token p q t cs rest ls ht hend _ ih =>
    rw [scan_token ht p hend, ih]
    cases TurtleGraphics.scan .gap q rest <;> rfl

/-! ## Where nothing can be read -/

theorem isName_singleton {c : Char} (h : isNameChar c = true) :
    IsName (String.ofList [c]).toList := by
  rw [String.toList_ofList]
  exact ⟨by simp, by simpa using h⟩

/-- Nothing can be read at a sigil without a name and at white space that is not skipped. -/
theorem NoTerminal.cases {c : Char} {cs : List Char} (h : NoTerminal (c :: cs)) :
    isSigil c = true ∧ nameFollows cs.head? = false ∨ isSpace c = true ∧ isSkipped c = false := by
  have hskip : isSkipped c = false := h.blank c rfl
  by_cases hspace : isSpace c = true
  · exact .inr ⟨hspace, hskip⟩
  have hbracket : isBracket c = false := by
    cases hb : isBracket c with
    | false => rfl
    | true =>
      simp only [isBracket, Bool.or_eq_true, beq_iff_eq] at hb
      rcases hb with rfl | rfl
      · exact absurd (by simp [Token.raw, Token.opening, Token.Kind.sigil])
          (h.token .opening .opening)
      · exact absurd (by simp [Token.raw, Token.closing, Token.Kind.sigil])
          (h.token .closing .closing)
  cases hsigil : isSigil c with
  | false =>
    have hname : IsName (String.ofList [c]).toList :=
      isName_singleton (by simp [isNameChar, hspace, hbracket])
    have hword : IsWord (String.ofList [c]).toList := ⟨hname, by simpa using hsigil, by simp⟩
    exact absurd (by simp [Token.raw, Token.Kind.sigil]) (h.token _ (.word hword))
  | true =>
    refine .inl ⟨rfl, ?_⟩
    cases cs with
    | nil => rfl
    | cons b cs =>
      cases hb : isNameChar b with
      | false => exact hb
      | true =>
        have hnext : IsName (String.ofList [b]).toList := isName_singleton hb
        simp only [isSigil, Bool.or_eq_true, beq_iff_eq] at hsigil
        rcases hsigil with rfl | rfl
        · exact absurd (by simp [Token.raw, Token.Kind.sigil]) (h.token _ (.quoted hnext))
        · exact absurd (by simp [Token.raw, Token.Kind.sigil]) (h.token _ (.variable hnext))

/-- No token starts with white space, and what starts with a sigil goes on with a name. -/
theorem Token.Spelled.begins {t : Token} (ht : t.Spelled) {c : Char} {cs : List Char}
    (hfront : t.raw.toList <+: c :: cs) :
    isSpace c = false ∧ (isSigil c = true → nameFollows cs.head? = true) := by
  cases ht with
  | @word w hw =>
    have hraw : w.toList <+: c :: cs := by simpa [Token.raw, Token.Kind.sigil] using hfront
    have hname : isNameChar c = true := hw.1.starts hraw
    have hsigil : isSigil c = false := by
      obtain ⟨b, name, hb⟩ := List.exists_cons_of_ne_nil hw.1.1
      rw [hb] at hraw
      exact hw.2.1 c (by rw [hb, (List.cons_prefix_cons.mp hraw).1, List.head?_cons])
    simp only [isNameChar, Bool.and_eq_true, Bool.not_eq_true'] at hname
    exact ⟨hname.1, by simp [hsigil]⟩
  | @quoted s hs =>
    have hraw : '"' :: s.toList <+: c :: cs := by simpa [Token.raw, Token.Kind.sigil] using hfront
    obtain ⟨rfl, hname⟩ := List.cons_prefix_cons.mp hraw
    exact ⟨rfl, fun _ => hs.starts hname⟩
  | @«variable» s hs =>
    have hraw : ':' :: s.toList <+: c :: cs := by simpa [Token.raw, Token.Kind.sigil] using hfront
    obtain ⟨rfl, hname⟩ := List.cons_prefix_cons.mp hraw
    exact ⟨rfl, fun _ => hs.starts hname⟩
  | opening =>
    obtain ⟨rfl, -⟩ := List.cons_prefix_cons.mp (show '[' :: [] <+: c :: cs from hfront)
    exact ⟨rfl, fun h => Bool.noConfusion h⟩
  | closing =>
    obtain ⟨rfl, -⟩ := List.cons_prefix_cons.mp (show ']' :: [] <+: c :: cs from hfront)
    exact ⟨rfl, fun h => Bool.noConfusion h⟩

/-- Nothing can be read at a sigil that no name follows and at white space that is not skipped.
Everywhere else something can. -/
theorem noTerminal_cons_iff {c : Char} {cs : List Char} :
    NoTerminal (c :: cs) ↔
      isSigil c = true ∧ nameFollows cs.head? = false ∨ isSpace c = true ∧ isSkipped c = false := by
  refine ⟨NoTerminal.cases, ?_⟩
  rintro (⟨hsigil, hnext⟩ | ⟨hspace, hskip⟩)
  · refine ⟨?_, ?_, fun t ht hfront => ?_⟩
    · rintro _ ⟨⟩
      simp only [isSigil, Bool.or_eq_true, beq_iff_eq] at hsigil
      rcases hsigil with rfl | rfl <;> rfl
    · intro hslashes
      obtain ⟨rfl, -⟩ := List.cons_prefix_cons.mp hslashes
      cases hsigil
    · rw [(ht.begins hfront).2 hsigil] at hnext
      cases hnext
  · refine ⟨?_, ?_, fun t ht hfront => ?_⟩
    · rintro _ ⟨⟩
      exact hskip
    · intro hslashes
      obtain ⟨rfl, -⟩ := List.cons_prefix_cons.mp hslashes
      cases hspace
    · rw [(ht.begins hfront).1] at hspace
      cases hspace

theorem NoTerminal.scan {c : Char} {cs : List Char} (h : NoTerminal (c :: cs)) (p : Place) :
    TurtleGraphics.scan .gap p (c :: cs) = .error ⟨c, p⟩ := by
  refine scan_cons_none ?_
  have hskip : isSkipped c = false := h.blank c rfl
  simp only [Mode.step?, begin?, hskip]
  obtain ⟨hsigil, hnext⟩ | ⟨hspace, -⟩ := h.cases
  · simp only [isSigil, Bool.or_eq_true, beq_iff_eq] at hsigil
    rcases hsigil with rfl | rfl <;> simp [hnext]
  · have hbracket : c ≠ '[' ∧ c ≠ ']' ∧ c ≠ '"' ∧ c ≠ ':' := by
      refine ⟨?_, ?_, ?_, ?_⟩ <;>
      · rintro rfl
        exact absurd hspace (by decide)
    simp [hbracket, hspace]

/-! ## Every text -/

/-- A name that starts a text can be read on to where no name goes on. -/
theorem IsName.exists_longest {name cs : List Char} (h : IsName name) (hfront : name <+: cs) :
    ∃ more rest, IsName (name ++ more) ∧ cs = name ++ more ++ rest ∧
      nameFollows rest.head? = false := by
  obtain ⟨cs, rfl⟩ := hfront
  refine ⟨cs.takeWhile isNameChar, cs.dropWhile isNameChar, ⟨by simp [h.1], ?_⟩, by simp, ?_⟩
  · intro c hc
    exact (List.mem_append.mp hc).elim (h.2 c) (List.all_eq_true.mp List.all_takeWhile c)
  · have hhead := List.head?_dropWhile_not isNameChar cs
    cases hrest : (cs.dropWhile isNameChar).head? with
    | none => rfl
    | some c =>
      rw [hrest] at hhead
      exact hhead

theorem IsName.exists_longest_behind {c : Char} {name cs : List Char} (h : IsName name)
    (hfront : c :: name <+: cs) :
    ∃ more rest, IsName (name ++ more) ∧ cs = c :: (name ++ more ++ rest) ∧
      nameFollows rest.head? = false := by
  obtain ⟨ds, rfl⟩ := hfront
  obtain ⟨more, rest, hname, heq, hend⟩ := h.exists_longest (List.prefix_append name ds)
  exact ⟨more, rest, hname, congrArg (c :: ·) heq, hend⟩

/-- Where a token can be read and no comment, a token can be read that is as long as can be. -/
theorem Token.Spelled.exists_longest {t : Token} (ht : t.Spelled) {cs : List Char}
    (hfront : t.raw.toList <+: cs) (hcomment : ¬ ['/', '/'] <+: cs) :
    ∃ (u : Token) (rest : List Char), u.Spelled ∧ cs = u.raw.toList ++ rest ∧
      (u.isBracket = false → nameFollows rest.head? = false) := by
  cases ht with
  | @word w hw =>
    simp only [Token.raw, Token.Kind.sigil, String.empty_append] at hfront
    obtain ⟨more, rest, hname, rfl, hend⟩ := hw.1.exists_longest hfront
    refine ⟨⟨.word, String.ofList (w.toList ++ more)⟩, rest, .word ⟨by simpa using hname, ?_, ?_⟩,
      by simp [Token.raw, Token.Kind.sigil], fun _ => hend⟩
    · intro c hc
      obtain ⟨b, name, hcons⟩ := List.exists_cons_of_ne_nil hw.1.1
      rw [String.toList_ofList, hcons] at hc
      exact hw.2.1 c (by rw [hcons]; exact hc)
    · rw [String.toList_ofList]
      exact fun hslashes => hcomment (hslashes.trans (List.prefix_append _ _))
  | @quoted s hs =>
    have hraw : '"' :: s.toList <+: cs := by simpa [Token.raw, Token.Kind.sigil] using hfront
    obtain ⟨more, rest, hname, rfl, hend⟩ := hs.exists_longest_behind hraw
    exact ⟨⟨.quoted, String.ofList (s.toList ++ more)⟩, rest, .quoted (by simpa using hname),
      by simp [Token.raw, Token.Kind.sigil], fun _ => hend⟩
  | @«variable» s hs =>
    have hraw : ':' :: s.toList <+: cs := by simpa [Token.raw, Token.Kind.sigil] using hfront
    obtain ⟨more, rest, hname, rfl, hend⟩ := hs.exists_longest_behind hraw
    exact ⟨⟨.variable, String.ofList (s.toList ++ more)⟩, rest, .variable (by simpa using hname),
      by simp [Token.raw, Token.Kind.sigil], fun _ => hend⟩
  | opening =>
    obtain ⟨rest, rfl⟩ := hfront
    exact ⟨.opening, rest, .opening, rfl, fun h => Bool.noConfusion h⟩
  | closing =>
    obtain ⟨rest, rfl⟩ := hfront
    exact ⟨.closing, rest, .closing, rfl, fun h => Bool.noConfusion h⟩

/-- What starts with two slashes is a comment to its end, or has a line feed that ends the
comment. -/
theorem openComment_or_gap {cs : List Char} (h : ['/', '/'] <+: cs) :
    OpenComment cs ∨ ∃ gap rest, Gap gap ∧ gap ≠ [] ∧ cs = gap ++ rest := by
  obtain ⟨cs, rfl⟩ := h
  by_cases hline : '\n' ∈ cs
  · obtain ⟨text, rest, rfl, htext⟩ := List.eq_append_cons_of_mem hline
    exact .inr ⟨'/' :: '/' :: (text ++ ['\n']), rest, .comment htext .nil, by simp, by simp⟩
  · exact .inl ⟨cs, rfl, hline⟩

theorem Token.Spelled.raw_ne_nil {t : Token} (h : t.Spelled) : t.raw.toList ≠ [] := by
  cases h with
  | word hw => simpa [Token.raw, Token.Kind.sigil] using hw.1.1
  | _ => simp [Token.raw, Token.Kind.sigil, Token.opening, Token.closing]

/-- Every text is split up to its end, to a comment that is last in it, or to where nothing can be
read. -/
theorem exists_splits (p : Place) (cs : List Char) :
    ∃ ls q rest, Splits p cs ls q rest ∧ (rest = [] ∨ OpenComment rest ∨ NoTerminal rest) := by
  induction hn : cs.length using Nat.strongRecOn generalizing p cs with
  | ind n ih =>
    subst hn
    have hskip : ∀ gap more, Gap gap → gap ≠ [] → cs = gap ++ more →
        ∃ ls q rest, Splits p cs ls q rest ∧ (rest = [] ∨ OpenComment rest ∨ NoTerminal rest) := by
      rintro gap more hgap hne rfl
      have hlt : more.length < (gap ++ more).length := by
        simpa using List.length_pos_iff.mpr hne
      obtain ⟨ls, q, rest, hsplit, hrest⟩ := ih _ hlt (p.behind gap) more rfl
      exact ⟨ls, q, rest, .skip hgap hsplit, hrest⟩
    cases cs with
    | nil => exact ⟨[], p, [], .done, .inl rfl⟩
    | cons c cs =>
      by_cases hblank : isSkipped c = true
      · exact hskip [c] cs (.blank hblank .nil) (by simp) rfl
      by_cases hcomment : ['/', '/'] <+: c :: cs
      · obtain hopen | ⟨gap, more, hgap, hne, heq⟩ := openComment_or_gap hcomment
        · exact ⟨[], p, _, .done, .inr (.inl hopen)⟩
        · exact hskip gap more hgap hne heq
      by_cases htoken : ∃ t : Token, t.Spelled ∧ t.raw.toList <+: c :: cs
      · obtain ⟨t, ht, hfront⟩ := htoken
        obtain ⟨u, more, hu, heq, hend⟩ := ht.exists_longest hfront hcomment
        have hlt : more.length < (c :: cs).length := by
          rw [heq, List.length_append]
          exact Nat.lt_add_of_pos_left (List.length_pos_iff.mpr hu.raw_ne_nil)
        obtain ⟨ls, q, rest, hsplit, hrest⟩ := ih _ hlt (p.behind u.raw.toList) more rfl
        rw [heq]
        exact ⟨⟨u, p⟩ :: ls, q, rest, .token hu hend hsplit, hrest⟩
      · refine ⟨[], p, _, .done, .inr (.inr ⟨?_, hcomment, fun t ht hp => htoken ⟨t, ht, hp⟩⟩)⟩
        rintro _ ⟨⟩
        simpa using hblank

/-- Behind its last token a text may end, or have a last comment. -/
theorem Splits.scan_of_ending {p q : Place} {cs rest : List Char} {ls : List Lexeme}
    (h : Splits p cs ls q rest) (hrest : rest = [] ∨ OpenComment rest) :
    TurtleGraphics.scan .gap p cs = .ok ls := by
  have hnone : TurtleGraphics.scan .gap q rest = .ok [] := by
    obtain rfl | hopen := hrest
    · rfl
    · exact hopen.scan q
  rw [h.scan, hnone]
  simp [Except.map]

/-- A text that scans to some tokens is split into them up to its end or a last comment. -/
theorem splits_of_scan {p : Place} {cs : List Char} {ls : List Lexeme}
    (h : scan .gap p cs = .ok ls) :
    ∃ q rest, Splits p cs ls q rest ∧ (rest = [] ∨ OpenComment rest) := by
  obtain ⟨found, q, rest, hsplit, hrest⟩ := exists_splits p cs
  have hend : rest = [] ∨ OpenComment rest := by
    obtain hnil | hopen | hstuck := hrest
    · exact .inl hnil
    · exact .inr hopen
    · cases rest with
      | nil => exact .inl rfl
      | cons c rest =>
        rw [hsplit.scan, hstuck.scan] at h
        cases h
  rw [hsplit.scan_of_ending hend] at h
  cases h
  exact ⟨q, rest, hsplit, hend⟩

end TurtleGraphics
