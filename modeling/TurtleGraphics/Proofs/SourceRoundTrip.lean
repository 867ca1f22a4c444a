import TurtleGraphics.Proofs.NumeralText
import TurtleGraphics.Proofs.ScriptText

/-!
# TurtleGraphics.Proofs.SourceRoundTrip

A script that was parsed can be printed, and the printed text parses to the same script.

* `Expr.Derived.printed`, `Stmt.Derived.printed`, `Script.Derived.printed` : a tree that is
  derived from tokens that can be spelled is printed as such tokens, and derived from these too.
* `parseScript_source` : the way from text to tree to text and back.

The tokens do change on the way. Numbers come back in their shortest spelling, the parameters of a
procedure are all quoted, and brackets stand alone. The grammar does not mind, and what it accepts
is all that the parser needs to know.
-/

namespace TurtleGraphics

open TurtleGraphics.Text

/-! ## Numbers and names -/

theorem isNameChar_of_isNumeralChar {c : Char} (h : Number.isNumeralChar c = true) :
    isNameChar c = true := by
  simp only [Number.isNumeralChar, Char.isDigit, Bool.or_eq_true, beq_iff_eq, Bool.and_eq_true,
    decide_eq_true_eq] at h
  rcases h with (((h | rfl) | rfl) | rfl) | rfl
  · have hlow : 48 ≤ c.toNat := h.1
    have hhigh : c.toNat ≤ 57 := h.2
    have hopen : c ≠ '[' := by
      rintro rfl
      exact absurd hhigh (by decide)
    have hclose : c ≠ ']' := by
      rintro rfl
      exact absurd hhigh (by decide)
    have hspace : isSpace c = false := by
      simp only [isSpace, Bool.or_eq_false_iff, Bool.and_eq_false_iff, decide_eq_false_iff_not,
        beq_eq_false_iff_ne]
      omega
    simp [isNameChar, isBracket, hspace, hopen, hclose]
  all_goals decide

theorem isName_text {x : Float} (h : Number.isFinite x = true) :
    IsName (Number.text x).toList :=
  ⟨Number.text_ne_empty h, fun c hc => isNameChar_of_isNumeralChar (Number.allNumeral_text h c hc)⟩

theorem text_ne_of_not_numeral {x : Float} (h : Number.isFinite x = true) {w : String} {c : Char}
    (hc : c ∈ w.toList) (hn : Number.isNumeralChar c = false) : Number.text x ≠ w := by
  intro hw
  rw [← hw] at hc
  rw [Number.allNumeral_text h c hc] at hn
  cases hn

theorem literal_text {x : Float} (h : Number.isFinite x = true) :
    Literal (Number.text x) (.number x) := by
  refine .number ?_ ?_ (Number.read_text h) h
  · exact text_ne_of_not_numeral h (by decide : 'T' ∈ "TRUE".toList) (by decide)
  · exact text_ne_of_not_numeral h (by decide : 'F' ∈ "FALSE".toList) (by decide)

theorem Token.Spelled.isName {t : Token} (h : t.Spelled) (hb : t.isBracket = false) :
    IsName t.text.toList := by
  cases h with
  | word hw => exact hw.1
  | quoted hs => exact hs
  | «variable» hs => exact hs
  | opening => cases hb
  | closing => cases hb

/-! ## Expressions -/

namespace Expr

theorem Derived.printed {ts : List Token} {e : Expr} (h : Derived ts e) (hs : AllSpelled ts) :
    ∃ us, e.tokens = .ok us ∧ AllSpelled us ∧ Derived us e := by
  induction h with
  | literal hl =>
    cases hl with
    | yes => exact ⟨_, rfl, hs, .literal .yes⟩
    | no => exact ⟨_, rfl, hs, .literal .no⟩
    | number _ _ _ hf =>
      exact ⟨_, rfl, by simpa using ⟨.quoted (isName_text hf), .nil⟩, .literal (literal_text hf)⟩
  | «variable» => exact ⟨_, rfl, hs, .variable⟩
  | query hw =>
    cases Keyword.word_of?_eq hw
    exact ⟨_, rfl, hs, .query hw⟩
  | negation hw _ ih =>
    cases Keyword.word_of?_eq hw
    obtain ⟨hword, hs⟩ := allSpelled_cons.mp hs
    obtain ⟨us, hus, hspelled, hd⟩ := ih hs
    exact ⟨_, by simp [tokens, hus]; rfl, by simpa using ⟨hword, hspelled⟩, .negation hw hd⟩
  | @numeric w op ls rs l r hw _ _ ihl ihr =>
    cases Keyword.word_of?_eq hw
    obtain ⟨hword, hs⟩ := allSpelled_cons.mp hs
    obtain ⟨hls, hrs⟩ := allSpelled_append.mp hs
    obtain ⟨us, hus, huspelled, hl⟩ := ihl hls
    obtain ⟨vs, hvs, hvspelled, hr⟩ := ihr hrs
    refine ⟨.ofWord op.word :: (us ++ vs), by simp [tokens, hus, hvs], ?_, .numeric hw hl hr⟩
    simpa using ⟨hword, huspelled, hvspelled⟩
  | @logic w op ls rs l r hw _ _ ihl ihr =>
    cases Keyword.word_of?_eq hw
    obtain ⟨hword, hs⟩ := allSpelled_cons.mp hs
    obtain ⟨hls, hrs⟩ := allSpelled_append.mp hs
    obtain ⟨us, hus, huspelled, hl⟩ := ihl hls
    obtain ⟨vs, hvs, hvspelled, hr⟩ := ihr hrs
    refine ⟨.ofWord op.word :: (us ++ vs), by simp [tokens, hus, hvs], ?_, .logic hw hl hr⟩
    simpa using ⟨hword, huspelled, hvspelled⟩

theorem AllDerived.printed {ts : List Token} {es : List Expr} (h : AllDerived ts es)
    (hs : AllSpelled ts) :
    ∃ us, allTokens es = .ok us ∧ AllSpelled us ∧ AllDerived us es := by
  induction h with
  | nil => exact ⟨[], rfl, .nil, .nil⟩
  | cons he _ ih =>
    obtain ⟨hfirst, hrest⟩ := allSpelled_append.mp hs
    obtain ⟨us, hus, huspelled, hu⟩ := he.printed hfirst
    obtain ⟨vs, hvs, hvspelled, hv⟩ := ih hrest
    exact ⟨us ++ vs, by simp [allTokens, hus, hvs], allSpelled_append.mpr ⟨huspelled, hvspelled⟩,
      .cons hu hv⟩

end Expr

/-! ## Statements -/

/-- The tokens on lines that follow one another. -/
def Line.allTokens (ls : List Line) : List Token := ls.flatMap Line.tokens

@[simp] theorem Line.allTokens_nil : Line.allTokens [] = [] := rfl

@[simp] theorem Line.allTokens_cons (l : Line) (ls : List Line) :
    Line.allTokens (l :: ls) = l.tokens ++ Line.allTokens ls := rfl

@[simp] theorem Line.allTokens_append (ls ms : List Line) :
    Line.allTokens (ls ++ ms) = Line.allTokens ls ++ Line.allTokens ms :=
  List.flatMap_append

theorem allSpelled_guarded {w : String} {opener closer : Token} {cs bs : List Token} :
    AllSpelled (.ofWord w :: (cs ++ opener :: (bs ++ [closer]))) ↔
      (Token.ofWord w).Spelled ∧ AllSpelled cs ∧ opener.Spelled ∧ AllSpelled bs ∧
        closer.Spelled := by
  simp [AllSpelled.nil]

theorem Line.allTokens_guarded (depth : Nat) (w : String) (cs : List Token) (inner : List Line) :
    Line.allTokens (⟨depth, .ofWord w :: cs ++ [.opening]⟩ :: inner ++ [⟨depth, [.closing]⟩]) =
      .ofWord w :: (cs ++ .opening :: (Line.allTokens inner ++ [.closing])) := by
  simp

mutual

theorem Stmt.Derived.printed {d : Declarations} {ts : List Token} {s : Stmt} (depth : Nat) :
    Stmt.Derived d ts s → AllSpelled ts →
      ∃ ls, s.lines depth = .ok ls ∧ AllSpelled (Line.allTokens ls) ∧
        Stmt.Derived d (Line.allTokens ls) s
  | @Stmt.Derived.command _ _ v _ _ hw htakes hes harity, hs => by
    cases Keyword.word_of?_eq hw
    obtain ⟨hword, hs⟩ := allSpelled_cons.mp hs
    obtain ⟨us, hus, hspelled, hd⟩ := hes.printed hs
    refine ⟨[⟨depth, .ofWord v.word :: us⟩], ?_, ?_, ?_⟩
    · simp [Stmt.lines, Stmt.header, hus]
    · simpa using ⟨hword, hspelled⟩
    · simpa [Keyword.word] using Stmt.Derived.command hw htakes hd harity
  | @Stmt.Derived.assignment _ _ v name _ _ hw htakes he, hs => by
    cases Keyword.word_of?_eq hw
    obtain ⟨hword, hs⟩ := allSpelled_cons.mp hs
    obtain ⟨hname, hs⟩ := allSpelled_cons.mp hs
    obtain ⟨us, hus, hspelled, hd⟩ := he.printed hs
    refine ⟨[⟨depth, .ofWord v.word :: .ofQuoted name :: us⟩], ?_, ?_, ?_⟩
    · simp [Stmt.lines, Stmt.header, Expr.allTokens, hus]
    · simpa using ⟨hword, hname, hspelled⟩
    · simpa [Keyword.word] using Stmt.Derived.assignment hw htakes hd
  | .ifThen hw hc _ hb _, hs => by
    cases Keyword.word_of?_eq hw
    obtain ⟨hword, hcs, -, hbs, -⟩ := allSpelled_guarded.mp hs
    obtain ⟨us, hus, huspelled, hcond⟩ := hc.printed hcs
    obtain ⟨inner, hinner, hispelled, hblock⟩ := hb.printed (depth + 1) hbs
    refine ⟨_, by simp only [Stmt.lines, Stmt.header, hus, hinner]; rfl, ?_, ?_⟩
    · rw [Line.allTokens_guarded]
      exact allSpelled_guarded.mpr ⟨hword, huspelled, .opening, hispelled, .closing⟩
    · rw [Line.allTokens_guarded]
      exact .ifThen hw hcond rfl hblock rfl
  | .whileDo hw hc _ hb _, hs => by
    cases Keyword.word_of?_eq hw
    obtain ⟨hword, hcs, -, hbs, -⟩ := allSpelled_guarded.mp hs
    obtain ⟨us, hus, huspelled, hcond⟩ := hc.printed hcs
    obtain ⟨inner, hinner, hispelled, hblock⟩ := hb.printed (depth + 1) hbs
    refine ⟨_, by simp only [Stmt.lines, Stmt.header, hus, hinner]; rfl, ?_, ?_⟩
    · rw [Line.allTokens_guarded]
      exact allSpelled_guarded.mpr ⟨hword, huspelled, .opening, hispelled, .closing⟩
    · rw [Line.allTokens_guarded]
      exact .whileDo hw hcond rfl hblock rfl
  | @Stmt.Derived.call _ name _ _ hname harity hes, hs => by
    obtain ⟨hword, hs⟩ := allSpelled_cons.mp hs
    obtain ⟨us, hus, hspelled, hd⟩ := hes.printed hs
    refine ⟨[⟨depth, .ofWord name :: us⟩], ?_, ?_, ?_⟩
    · simp [Stmt.lines, Stmt.header, hus]
    · simpa using ⟨hword, hspelled⟩
    · simpa using Stmt.Derived.call hname harity hd

theorem Stmt.AllDerived.printed {d : Declarations} {ts : List Token} {ss : List Stmt}
    (depth : Nat) :
    Stmt.AllDerived d ts ss → AllSpelled ts →
      ∃ ls, Stmt.allLines depth ss = .ok ls ∧ AllSpelled (Line.allTokens ls) ∧
        Stmt.AllDerived d (Line.allTokens ls) ss
  | .nil, _ => ⟨[], rfl, .nil, .nil⟩
  | .cons hs hss, h => by
    obtain ⟨hfirst, hrest⟩ := allSpelled_append.mp h
    obtain ⟨ls, hls, hlspelled, hl⟩ := hs.printed depth hfirst
    obtain ⟨ms, hms, hmspelled, hm⟩ := hss.printed depth hrest
    refine ⟨ls ++ ms, by simp [Stmt.allLines, hls, hms], ?_, ?_⟩
    · simpa using ⟨hlspelled, hmspelled⟩
    · simpa using Stmt.AllDerived.cons hl hm

end

/-! ## Scripts -/

namespace Script

theorem Derived.printed {d : Declarations} {ts : List Token} {script : Script}
    (h : Script.Derived d ts script) (hs : AllSpelled ts) :
    ∃ ls, Stmt.allLines 0 script = .ok ls ∧ AllSpelled (Line.allTokens ls) ∧
      Script.Derived d (Line.allTokens ls) script := by
  induction h with
  | nil => exact ⟨[], rfl, .nil, .nil⟩
  | statement hstmt _ ih =>
    obtain ⟨hfirst, hrest⟩ := allSpelled_append.mp hs
    obtain ⟨ls, hls, hlspelled, hl⟩ := hstmt.printed 0 hfirst
    obtain ⟨ms, hms, hmspelled, hm⟩ := ih hrest
    refine ⟨ls ++ ms, by simp [Stmt.allLines, hls, hms], ?_, ?_⟩
    · simpa using ⟨hlspelled, hmspelled⟩
    · simpa using Script.Derived.statement hl hm
  | @definition d start stop name ps bs us body ss hstart hname hall hnodup hbody hstop _ ih =>
    cases Keyword.word_of?_eq hstart
    cases Keyword.word_of?_eq hstop
    simp only [allSpelled_cons, allSpelled_append] at hs
    obtain ⟨hto, hword, hps, hbs, hend, hus⟩ := hs
    obtain ⟨inner, hinner, hispelled, hi⟩ := hbody.printed 1 hbs
    obtain ⟨ms, hms, hmspelled, hm⟩ := ih hus
    -- Parameters are printed as quoted names, whatever they were before.
    have hqspelled : AllSpelled ((ps.map Token.text).map .ofQuoted) := by
      intro t ht
      simp only [List.map_map, List.mem_map] at ht
      obtain ⟨p, hp, rfl⟩ := ht
      exact .quoted ((hps p hp).isName (hall p hp).isBracket)
    have hlength : (ps.map Token.text).length = ps.length := List.length_map _
    have hd := Script.Derived.definition_quoted hstart hname hnodup (by rwa [hlength]) hstop
      (by rwa [hlength])
    refine ⟨(⟨0, .ofWord Keyword.procedureStart.word :: .ofWord name ::
      (ps.map Token.text).map .ofQuoted⟩ :: inner ++
      [⟨0, [.ofWord Keyword.procedureEnd.word]⟩]) ++ ms, ?_, ?_, ?_⟩
    · simp [Stmt.allLines, Stmt.lines, Stmt.header, hinner, hms]
    · simp only [Line.allTokens_append, Line.allTokens_cons, Line.allTokens_nil,
        allSpelled_append, allSpelled_cons]
      exact ⟨⟨⟨⟨hto, hword, hqspelled⟩, hispelled⟩, ⟨hend, .nil⟩, .nil⟩, hmspelled⟩
    · simpa using hd

end Script

/-! ## Texts -/

/-- A text that parses is printed, the printed text parses to the very same script, and printing
that gives the same text again. -/
theorem parseScript_source {limit : Nat} {text : String} {script : Script}
    (h : parseScript limit text = .ok script) :
    ∃ printed, script.source = .ok printed ∧
      ∃ again, parseScript limit printed = .ok again ∧ again = script ∧
        again.source = .ok printed := by
  obtain ⟨ts, hspelled, hd, hn⟩ := derived_of_parseScript h
  obtain ⟨ls, hls, hlspelled, hl⟩ := hd.printed hspelled
  have hsource : script.source = .ok (String.join (ls.map fun l => l.text ++ "\n")) := by
    simp only [Script.source, hls]
  have hagain := parseScript_of_spells (Spells.lines hlspelled) hl hn
  exact ⟨_, hsource, script, hagain, rfl, hsource⟩

/-- A bare parameter, a name with a comment mark, one with a quote, and the negative zero. -/
theorem parseScript_source_odd_names :
    ∃ script, parseScript 9 "TO go//to x MAKE \"a\"b \"-0 END // done\ngo//to :x" = .ok script ∧
      ∃ printed, script.source = .ok printed ∧
        ∃ again, parseScript 9 printed = .ok again ∧ again = script ∧
          again.source = .ok printed := by
  have hok : (parseScript 9 "TO go//to x MAKE \"a\"b \"-0 END // done\ngo//to :x").toBool =
      true := by decide +kernel
  cases h : parseScript 9 "TO go//to x MAKE \"a\"b \"-0 END // done\ngo//to :x" with
  | error e => rw [h] at hok; cases hok
  | ok script => exact ⟨script, rfl, parseScript_source h⟩

end TurtleGraphics
