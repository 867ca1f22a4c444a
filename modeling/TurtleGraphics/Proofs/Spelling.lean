import TurtleGraphics.Proofs.Brackets
import TurtleGraphics.Syntax.Printer
import TurtleGraphics.Token.Scan

/-!
# TurtleGraphics.Proofs.Spelling

Which tokens a text can spell, and the way from tokens to text and back.

* `Token.Spelled` : the tokens that come out of a scan.
* `spelled_of_scan`, `spelled_of_tokenize` : nothing else does.
* `Place.behind`  : the place behind a text.
* `scan_token`    : a token is read where it stands.
* `Spells`        : a text and the tokens that it scans to, wherever it starts.
* `Spells.lines`  : printed lines scan to the tokens on them.

A name may hold anything but white space and brackets, quotes and colons and slashes included. A
word has to be told from a sigil and from a comment by its start; what follows a sigil has not.
-/

namespace TurtleGraphics

open TurtleGraphics.Text

/-! ## Names -/

/-- The characters of a name. -/
def IsName (cs : List Char) : Prop := cs ≠ [] ∧ ∀ c ∈ cs, isNameChar c = true

/-- The characters of a word: a name that starts neither with a sigil nor as a comment. -/
def IsWord (cs : List Char) : Prop :=
  IsName cs ∧ (∀ c, cs.head? = some c → isSigil c = false) ∧ ¬ ['/', '/'] <+: cs

theorem IsName.starts {name cs : List Char} (h : IsName name) (hfront : name <+: cs) :
    nameFollows cs.head? = true := by
  obtain ⟨hne, hchars⟩ := h
  obtain ⟨c, name, rfl⟩ := List.exists_cons_of_ne_nil hne
  obtain ⟨more, rfl⟩ := hfront
  exact hchars c List.mem_cons_self

/-- The tokens that a text can spell. -/
inductive Token.Spelled : Token → Prop where
  | word {w : String} : IsWord w.toList → Token.Spelled ⟨.word, w⟩
  | quoted {s : String} : IsName s.toList → Token.Spelled ⟨.quoted, s⟩
  | variable {s : String} : IsName s.toList → Token.Spelled ⟨.variable, s⟩
  | opening : Token.Spelled .opening
  | closing : Token.Spelled .closing

/-- Every one of the tokens can be spelled. -/
def AllSpelled (ts : List Token) : Prop := ∀ t ∈ ts, t.Spelled

theorem AllSpelled.nil : AllSpelled [] := fun _ h => nomatch h

@[simp] theorem allSpelled_cons {t : Token} {ts : List Token} :
    AllSpelled (t :: ts) ↔ t.Spelled ∧ AllSpelled ts := by
  simp [AllSpelled]

@[simp] theorem allSpelled_append {ts us : List Token} :
    AllSpelled (ts ++ us) ↔ AllSpelled ts ∧ AllSpelled us := by
  simp only [AllSpelled, List.mem_append, or_imp, forall_and]

/-! ## What comes out of a scan -/

/-- The name that a mode is in the middle of, read on over a text to its end, can be spelled. -/
def Mode.Sound (cs : List Char) : Mode → Prop
  | .gap => True
  | .comment => True
  | .name kind _ taken =>
    Token.Spelled ⟨kind, String.ofList (taken.reverse ++ cs.takeWhile isNameChar)⟩

theorem Mode.Sound.finish {mode : Mode} {cs : List Char} (h : mode.Sound cs)
    (hend : cs.takeWhile isNameChar = []) :
    AllSpelled (mode.finish.map Lexeme.token) := by
  cases mode with
  | gap => exact .nil
  | comment => exact .nil
  | name kind start taken =>
    simp only [Mode.Sound, hend, List.append_nil] at h
    simpa [Mode.finish] using ⟨h, AllSpelled.nil⟩

theorem isName_takeWhile {cs : List Char} (h : nameFollows cs.head? = true) :
    IsName (cs.takeWhile isNameChar) := by
  refine ⟨?_, fun c hc => List.all_eq_true.mp List.all_takeWhile c hc⟩
  cases cs with
  | nil => cases h
  | cons c cs =>
    simp only [List.head?_cons, nameFollows] at h
    simp [h]

theorem isWord_takeWhile {c : Char} {cs : List Char} (hname : isNameChar c = true)
    (hsigil : isSigil c = false) (hcomment : ¬ (c = '/' ∧ cs.head? = some '/')) :
    IsWord (c :: cs.takeWhile isNameChar) := by
  refine ⟨⟨List.cons_ne_nil _ _, ?_⟩, ?_, ?_⟩
  · intro b hb
    rcases List.mem_cons.mp hb with rfl | hb
    · exact hname
    · exact List.all_eq_true.mp List.all_takeWhile b hb
  · intro b hb
    cases hb
    exact hsigil
  · intro hprefix
    obtain ⟨hc, hslash⟩ := List.cons_prefix_cons.mp hprefix
    refine hcomment ⟨hc.symm, ?_⟩
    cases cs with
    | nil => simp at hslash
    | cons b cs =>
      rw [List.takeWhile_cons] at hslash
      split at hslash
      · rw [(List.cons_prefix_cons.mp hslash).1, List.head?_cons]
      · simp at hslash

theorem begin?_sound {p : Place} {c : Char} {cs : List Char} {ls : List Lexeme} {mode : Mode}
    (h : begin? p c cs.head? = some (ls, mode)) :
    AllSpelled (ls.map Lexeme.token) ∧ mode.Sound cs := by
  unfold begin? at h
  split at h
  · cases h; exact ⟨.nil, trivial⟩
  rename_i hskip
  split at h
  · cases h; exact ⟨by simpa using ⟨.opening, .nil⟩, trivial⟩
  rename_i hopen
  split at h
  · cases h; exact ⟨by simpa using ⟨.closing, .nil⟩, trivial⟩
  rename_i hclose
  split at h
  · split at h
    · rename_i hnext
      cases h
      exact ⟨.nil, .quoted (by simpa using isName_takeWhile hnext)⟩
    · cases h
  rename_i hquote
  split at h
  · split at h
    · rename_i hnext
      cases h
      exact ⟨.nil, .variable (by simpa using isName_takeWhile hnext)⟩
    · cases h
  rename_i hcolon
  split at h
  · cases h
  rename_i hspace
  split at h
  · cases h; exact ⟨.nil, trivial⟩
  rename_i hcomment
  cases h
  have hname : isNameChar c = true := by simp [isNameChar, isBracket, hspace, hopen, hclose]
  have hsigil : isSigil c = false := by simp [isSigil, hquote, hcolon]
  exact ⟨.nil, .word (by simpa using isWord_takeWhile hname hsigil hcomment)⟩

theorem Mode.step?_sound {p : Place} {c : Char} {cs : List Char} {mode next : Mode}
    {ls : List Lexeme} (hm : mode.Sound (c :: cs))
    (h : mode.step? p c cs.head? = some (ls, next)) :
    AllSpelled (ls.map Lexeme.token) ∧ next.Sound cs := by
  cases mode with
  | gap => exact begin?_sound h
  | comment =>
    simp only [Mode.step?, Option.some.injEq, Prod.mk.injEq] at h
    obtain ⟨rfl, rfl⟩ := h
    exact ⟨.nil, by split <;> trivial⟩
  | name kind start taken =>
    simp only [Mode.step?] at h
    split at h
    · rename_i hc
      cases h
      exact ⟨.nil, by simpa [Mode.Sound, hc] using hm⟩
    · rename_i hc
      split at h
      · cases h
      · rename_i tokens after hb
        cases h
        obtain ⟨htokens, hafter⟩ := begin?_sound hb
        rw [List.map_append, allSpelled_append]
        exact ⟨⟨hm.finish (by simp [hc]), htokens⟩, hafter⟩

theorem spelled_of_scan {mode : Mode} {p : Place} {cs : List Char} {ls : List Lexeme}
    (hm : mode.Sound cs) (h : scan mode p cs = .ok ls) : AllSpelled (ls.map Lexeme.token) := by
  induction cs generalizing mode p ls with
  | nil =>
    cases h
    exact hm.finish rfl
  | cons c cs ih =>
    simp only [scan] at h
    split at h
    · cases h
    · rename_i tokens next hs
      obtain ⟨htokens, hnext⟩ := Mode.step?_sound hm hs
      split at h
      · cases h
      · rename_i rest hrest
        cases h
        rw [List.map_append, allSpelled_append]
        exact ⟨htokens, ih hnext hrest⟩

theorem lexemes_of_tokenize {text : String} {ls : List Lexeme} (h : tokenize text = .ok ls) :
    lexemes text = .ok ls := by
  simp only [tokenize] at h
  split at h
  · cases h
  · rename_i found hf
    split at h
    · cases h
    · cases h
      exact hf

theorem spelled_of_tokenize {text : String} {ls : List Lexeme} (h : tokenize text = .ok ls) :
    AllSpelled (ls.map Lexeme.token) := by
  have hgap : Mode.Sound text.toList .gap := trivial
  exact spelled_of_scan hgap (lexemes_of_tokenize h)

/-! ## Places -/

/-- The place behind a text that starts at a place. Line feeds are counted for the line, and the
characters behind the last of them for the column. -/
def Place.behind (p : Place) (cs : List Char) : Place :=
  ⟨p.line + cs.count '\n',
    if '\n' ∈ cs then (cs.reverse.takeWhile (· != '\n')).length + 1 else p.column + cs.length⟩

namespace Place

@[simp] theorem behind_nil (p : Place) : p.behind [] = p := by
  simp [behind]

theorem takeWhile_reverse_append {cs : List Char} (h : '\n' ∈ cs) (ds : List Char) :
    (cs.reverse ++ ds).takeWhile (· != '\n') = cs.reverse.takeWhile (· != '\n') := by
  rw [List.takeWhile_append, if_neg]
  intro hlength
  have hall : (cs.reverse.takeWhile (· != '\n')).all (· != '\n') = true := List.all_takeWhile
  rw [(List.takeWhile_prefix _).eq_of_length hlength] at hall
  simpa using List.all_eq_true.mp hall '\n' (List.mem_reverse.mpr h)

theorem takeWhile_reverse_of_not_mem {cs : List Char} (h : '\n' ∉ cs) (ds : List Char) :
    (cs.reverse ++ ds).takeWhile (· != '\n') = cs.reverse ++ ds.takeWhile (· != '\n') := by
  refine List.takeWhile_append_of_pos fun c hc => ?_
  have hne : c ≠ '\n' := by
    rintro rfl
    exact h (List.mem_reverse.mp hc)
  simpa using hne

/-- The place behind a text is found by going over its characters one by one. -/
theorem behind_cons (p : Place) (c : Char) (cs : List Char) :
    p.behind (c :: cs) = (p.after c).behind cs := by
  by_cases hc : c = '\n'
  · subst hc
    by_cases hcs : '\n' ∈ cs
    · simp [behind, after, hcs, takeWhile_reverse_append hcs]
      omega
    · simp [behind, after, hcs, takeWhile_reverse_of_not_mem hcs, List.count_eq_zero_of_not_mem]
      omega
  · by_cases hcs : '\n' ∈ cs
    · simp [behind, after, hc, hcs, takeWhile_reverse_append hcs]
    · simp [behind, after, hc, Ne.symm hc, hcs]
      omega

theorem behind_append (p : Place) (cs ds : List Char) :
    p.behind (cs ++ ds) = (p.behind cs).behind ds := by
  induction cs generalizing p with
  | nil => rw [List.nil_append, behind_nil]
  | cons c cs ih => rw [List.cons_append, behind_cons, behind_cons, ih]

end Place

/-! ## What goes into one -/

/-- A text scans to exactly these tokens, whatever its place. -/
def Spells (cs : List Char) (ts : List Token) : Prop :=
  ∀ p, ∃ ls, scan .gap p cs = .ok ls ∧ ls.map Lexeme.token = ts

theorem begin?_of_isSkipped {c : Char} (h : isSkipped c = true) (p : Place)
    (next : Option Char) : begin? p c next = some ([], .gap) := by
  simp [begin?, h]

theorem begin?_word {c : Char} (hname : isNameChar c = true) (hsigil : isSigil c = false)
    {next : Option Char} (hcomment : ¬ (c = '/' ∧ next = some '/')) (p : Place) :
    begin? p c next = some ([], .name .word p [c]) := by
  have hskip : isSkipped c = false := by
    cases h : isSkipped c with
    | false => rfl
    | true => rw [not_isNameChar_of_isSkipped h] at hname; cases hname
  simp only [isNameChar, isBracket, Bool.and_eq_true, Bool.not_eq_true', Bool.or_eq_false_iff,
    beq_eq_false_iff_ne] at hname
  simp only [isSigil, Bool.or_eq_false_iff, beq_eq_false_iff_ne] at hsigil
  simp [begin?, hskip, hname.1, hname.2.1, hname.2.2, hsigil.1, hsigil.2, hcomment]

section

variable {mode next : Mode} {p : Place} {c : Char} {cs : List Char} {done : List Lexeme}

theorem scan_cons (h : mode.step? p c cs.head? = some (done, next)) :
    scan mode p (c :: cs) = (scan next (p.after c) cs).map (done ++ ·) := by
  simp only [scan, h]
  cases scan next (p.after c) cs <;> rfl

theorem scan_cons_nil (h : mode.step? p c cs.head? = some ([], next)) :
    scan mode p (c :: cs) = scan next (p.after c) cs := by
  rw [scan_cons h]
  cases scan next (p.after c) cs <;> rfl

theorem scan_skipped (hc : isSkipped c = true) (p : Place) (cs : List Char) :
    scan .gap p (c :: cs) = scan .gap (p.after c) cs :=
  scan_cons_nil (begin?_of_isSkipped hc p cs.head?)

theorem scan_cons_none (h : mode.step? p c cs.head? = none) :
    scan mode p (c :: cs) = .error ⟨c, p⟩ := by
  simp only [scan, h]

end

/-- A name is read as far as its characters go. -/
theorem scan_name_append (kind : Token.Kind) (start : Place) {name : List Char}
    (hname : ∀ c ∈ name, isNameChar c = true) (taken : List Char) (p : Place) (cs : List Char) :
    scan (.name kind start taken) p (name ++ cs) =
      scan (.name kind start (name.reverse ++ taken)) (p.behind name) cs := by
  induction name generalizing taken p with
  | nil => rw [Place.behind_nil]; rfl
  | cons c name ih =>
    have hc : isNameChar c = true := hname c List.mem_cons_self
    have hstep : Mode.step? p c (name ++ cs).head? (.name kind start taken) =
        some ([], .name kind start (c :: taken)) := by
      simp [Mode.step?, hc]
    rw [List.cons_append, scan_cons_nil hstep, ih fun b hb => hname b (List.mem_cons_of_mem _ hb),
      Place.behind_cons, List.reverse_cons, List.append_assoc]
    rfl

/-- Where no name goes on, the name is over and the rest is read as behind a gap. -/
theorem scan_name_end (kind : Token.Kind) (start : Place) (taken : List Char) (p : Place)
    {cs : List Char} (hend : nameFollows cs.head? = false) :
    scan (.name kind start taken) p cs =
      (scan .gap p cs).map (⟨⟨kind, String.ofList taken.reverse⟩, start⟩ :: ·) := by
  cases cs with
  | nil => rfl
  | cons c cs =>
    have hc : isNameChar c = false := hend
    cases hb : begin? p c cs.head? with
    | none =>
      have hgap : Mode.step? p c cs.head? .gap = none := hb
      have hname : Mode.step? p c cs.head? (.name kind start taken) = none := by
        simp [Mode.step?, hc, hb]
      rw [scan_cons_none hgap, scan_cons_none hname]
      rfl
    | some r =>
      obtain ⟨done, next⟩ := r
      have hgap : Mode.step? p c cs.head? .gap = some (done, next) := hb
      have hname : Mode.step? p c cs.head? (.name kind start taken) =
          some ((Mode.name kind start taken).finish ++ done, next) := by
        simp [Mode.step?, hc, hb]
      rw [scan_cons hgap, scan_cons hname]
      cases scan next (p.after c) cs <;> rfl

theorem scan_name (kind : Token.Kind) (start : Place) {name : List Char}
    (hname : ∀ c ∈ name, isNameChar c = true) (taken : List Char) (p : Place) {cs : List Char}
    (hend : nameFollows cs.head? = false) :
    scan (.name kind start taken) p (name ++ cs) =
      (scan .gap (p.behind name) cs).map
        (⟨⟨kind, String.ofList (taken.reverse ++ name)⟩, start⟩ :: ·) := by
  rw [scan_name_append kind start hname, scan_name_end kind start _ _ hend]
  simp

/-- A sigil and a name make a token. -/
theorem scan_sigil {c : Char} {kind : Token.Kind}
    (hc : ∀ p next, nameFollows next = true → begin? p c next = some ([], .name kind p []))
    {name : List Char} (hname : IsName name) (p : Place) {cs : List Char}
    (hend : nameFollows cs.head? = false) :
    scan .gap p (c :: (name ++ cs)) =
      (scan .gap (p.behind (c :: name)) cs).map (⟨⟨kind, String.ofList name⟩, p⟩ :: ·) := by
  have hnext : nameFollows (name ++ cs).head? = true :=
    hname.starts (List.prefix_append name cs)
  have hstep : Mode.step? p c (name ++ cs).head? .gap = some ([], .name kind p []) :=
    hc p _ hnext
  rw [scan_cons_nil hstep, scan_name kind p hname.2 [] _ hend, Place.behind_cons]
  rfl

theorem scan_word {name : List Char} (hname : IsWord name) (p : Place) {cs : List Char}
    (hend : nameFollows cs.head? = false) :
    scan .gap p (name ++ cs) =
      (scan .gap (p.behind name) cs).map (⟨⟨.word, String.ofList name⟩, p⟩ :: ·) := by
  obtain ⟨⟨hne, hchars⟩, hsigil, hslashes⟩ := hname
  obtain ⟨b, name, rfl⟩ := List.exists_cons_of_ne_nil hne
  have hcomment : ¬ (b = '/' ∧ (name ++ cs).head? = some '/') := by
    rintro ⟨rfl, hnext⟩
    cases name with
    | nil =>
      rw [List.nil_append] at hnext
      rw [hnext] at hend
      exact absurd hend (by decide)
    | cons a name => cases hnext; exact hslashes ⟨name, rfl⟩
  have hstep : Mode.step? p b (name ++ cs).head? .gap = some ([], .name .word p [b]) :=
    begin?_word (hchars b List.mem_cons_self) (hsigil b rfl) hcomment p
  rw [List.cons_append, scan_cons_nil hstep,
    scan_name .word p (fun a ha => hchars a (List.mem_cons_of_mem _ ha)) [b] _ hend,
    Place.behind_cons]
  rfl

/-- A token is read where it stands, if no name goes on behind it. -/
theorem scan_token {t : Token} (ht : t.Spelled) (p : Place) {cs : List Char}
    (hend : t.isBracket = false → nameFollows cs.head? = false) :
    scan .gap p (t.raw.toList ++ cs) =
      (scan .gap (p.behind t.raw.toList) cs).map (⟨t, p⟩ :: ·) := by
  cases ht with
  | @word w hw => simpa [Token.raw, Token.Kind.sigil] using scan_word hw p (hend rfl)
  | @quoted s hs =>
    have hquote : ∀ p next, nameFollows next = true →
        begin? p '"' next = some ([], .name .quoted p []) := by
      intro p next hnext
      simp [begin?, isSkipped, hnext]
    simpa [Token.raw, Token.Kind.sigil] using scan_sigil hquote hs p (hend rfl)
  | @«variable» s hs =>
    have hcolon : ∀ p next, nameFollows next = true →
        begin? p ':' next = some ([], .name .variable p []) := by
      intro p next hnext
      simp [begin?, isSkipped, hnext]
    simpa [Token.raw, Token.Kind.sigil] using scan_sigil hcolon hs p (hend rfl)
  | opening =>
    have hstep : Mode.step? p '[' cs.head? .gap = some ([⟨.opening, p⟩], .gap) := by
      simp [Mode.step?, begin?, isSkipped]
    simpa [Token.raw, Token.opening, Token.Kind.sigil, Place.behind_cons] using scan_cons hstep
  | closing =>
    have hstep : Mode.step? p ']' cs.head? .gap = some ([⟨.closing, p⟩], .gap) := by
      simp [Mode.step?, begin?, isSkipped]
    simpa [Token.raw, Token.closing, Token.Kind.sigil, Place.behind_cons] using scan_cons hstep

namespace Spells

theorem nil : Spells [] [] := fun _ => ⟨[], rfl, rfl⟩

theorem skip {c : Char} (hc : isSkipped c = true) {cs : List Char} {ts : List Token}
    (h : Spells cs ts) : Spells (c :: cs) ts := by
  intro p
  obtain ⟨ls, hls, hts⟩ := h (p.after c)
  exact ⟨ls, by rw [scan_skipped hc, hls], hts⟩

theorem indent {cs : List Char} {ts : List Token} (h : Spells cs ts) (n : Nat) :
    Spells (List.replicate n ' ' ++ cs) ts := by
  induction n with
  | zero => exact h
  | succ n ih => exact ih.skip rfl

/-- A token in front of white space. -/
theorem token {t : Token} (ht : t.Spelled) {sep : Char} (hsep : isSkipped sep = true)
    {cs : List Char} {ts : List Token} (h : Spells cs ts) :
    Spells (t.raw.toList ++ sep :: cs) (t :: ts) := by
  intro p
  obtain ⟨ls, hls, hts⟩ := h.skip hsep (p.behind t.raw.toList)
  have hend : nameFollows (sep :: cs).head? = false := not_isNameChar_of_isSkipped hsep
  exact ⟨⟨t, p⟩ :: ls, by rw [scan_token ht p fun _ => hend, hls]; rfl, by simp [hts]⟩

theorem spaced {ts us : List Token} (hts : AllSpelled ts) {cs : List Char} (h : Spells cs us) :
    Spells ((TurtleGraphics.spaced ts).toList ++ '\n' :: cs) (ts ++ us) := by
  induction ts with
  | nil => exact h.skip rfl
  | cons t ts ih =>
    obtain ⟨ht, hts⟩ := allSpelled_cons.mp hts
    cases ts with
    | nil => simpa [TurtleGraphics.spaced] using h.token ht rfl
    | cons u ts =>
      have htail := (ih hts).token ht (by decide : isSkipped ' ' = true)
      simpa [TurtleGraphics.spaced, String.intercalate_cons_cons] using htail

theorem lines {ls : List Line} (hls : AllSpelled (ls.flatMap Line.tokens)) :
    Spells (String.join (ls.map fun l => l.text ++ "\n")).toList (ls.flatMap Line.tokens) := by
  induction ls with
  | nil => exact .nil
  | cons l ls ih =>
    rw [List.flatMap_cons, allSpelled_append] at hls
    have hl := (spaced hls.1 (ih hls.2)).indent (2 * l.depth)
    simpa [Line.text, List.append_assoc] using hl

end Spells

theorem lexemes_of_spells {text : String} {ts : List Token} (h : Spells text.toList ts) :
    ∃ ls, lexemes text = .ok ls ∧ ls.map Lexeme.token = ts :=
  h .start

end TurtleGraphics
