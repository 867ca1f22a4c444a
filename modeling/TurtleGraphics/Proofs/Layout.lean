import TurtleGraphics.Proofs.ScriptText
import TurtleGraphics.Proofs.Splitting

/-!
# TurtleGraphics.Proofs.Layout

The layout of a text does not matter.

* `Separates`          : what may stand between a token and the next one.
* `LaidOut`            : tokens as they are spelled, with such gaps behind them.
* `LaidOut.spells`     : they scan to the same tokens again.
* `runScript_of_laidOut` : so a script that is laid out anew does the same.

Only a name needs something behind it. Two slashes go on with a name, so a comment has to be kept
off it by white space; a bracket ends a name and is over at once.
-/

namespace TurtleGraphics

open TurtleGraphics.Text

/-- What may stand behind a token, in front of the next one or the end. Behind a name a gap starts
with white space, and there is one if another name comes next. -/
structure Separates (t : Token) (gap : List Char) (next : Option Token) : Prop where
  skipped : Gap gap
  blank : t.isBracket = false → ∀ c, gap.head? = some c → isSkipped c = true
  apart : t.isBracket = false → ∀ u, next = some u → u.isBracket = false → gap ≠ []

/-- Behind a bracket any gap will do. -/
theorem Separates.of_isBracket {t : Token} (ht : t.isBracket = true) {gap : List Char}
    (hgap : Gap gap) (next : Option Token) : Separates t gap next :=
  ⟨hgap, fun h => absurd (ht.symm.trans h) Bool.noConfusion,
    fun h => absurd (ht.symm.trans h) Bool.noConfusion⟩

/-- Tokens as they are spelled, each with a gap behind it. -/
inductive LaidOut : List Token → List Char → Prop where
  | nil : LaidOut [] []
  | cons {t : Token} {ts : List Token} {gap cs : List Char} : Separates t gap ts.head? →
      LaidOut ts cs → LaidOut (t :: ts) (t.raw.toList ++ (gap ++ cs))

theorem Token.Spelled.not_nameFollows_of_isBracket {t : Token} (h : t.Spelled)
    (hb : t.isBracket = true) (cs : List Char) :
    nameFollows (t.raw.toList ++ cs).head? = false := by
  cases h with
  | opening => rfl
  | closing => rfl
  | _ => cases hb

theorem LaidOut.ends {t : Token} {ts : List Token} {gap cs : List Char}
    (hsep : Separates t gap ts.head?) (h : LaidOut ts cs) (hts : AllSpelled ts)
    (ht : t.isBracket = false) : nameFollows (gap ++ cs).head? = false := by
  cases gap with
  | cons c gap => exact not_isNameChar_of_isSkipped (hsep.blank ht c rfl)
  | nil =>
    cases h with
    | nil => rfl
    | @cons u us _ _ _ _ =>
      have hu : u.isBracket = true := by
        cases hb : u.isBracket with
        | true => rfl
        | false => exact absurd rfl (hsep.apart ht u rfl hb)
      exact (allSpelled_cons.mp hts).1.not_nameFollows_of_isBracket hu _

/-- Tokens that are laid out in any way are spelled. -/
theorem LaidOut.spells {ts : List Token} {cs : List Char} (h : LaidOut ts cs)
    (hts : AllSpelled ts) : Spells cs ts := by
  induction h with
  | nil => exact .nil
  | @cons t ts gap cs hsep hrest ih =>
    intro p
    obtain ⟨ht, hts⟩ := allSpelled_cons.mp hts
    obtain ⟨ls, hls, hmap⟩ := ih hts ((p.behind t.raw.toList).behind gap)
    refine ⟨⟨t, p⟩ :: ls, ?_, by rw [List.map_cons, hmap]⟩
    rw [scan_token ht p (hrest.ends hsep hts), hsep.skipped.scan, hls]
    rfl

theorem Gap.spells {gap cs : List Char} {ts : List Token} (h : Gap gap) (hcs : Spells cs ts) :
    Spells (gap ++ cs) ts := by
  intro p
  rw [h.scan]
  exact hcs _

/-- What becomes of a script depends on its tokens only. -/
theorem processScript_congr {text text' : String} {ls ls' : List Lexeme}
    (h : tokenize text = .ok ls) (h' : tokenize text' = .ok ls')
    (htokens : tokensOf ls' = tokensOf ls) (limits : Limits) (grammar : Grammar)
    (turtle? : Option Turtle) :
    processScript limits grammar text' turtle? = processScript limits grammar text turtle? := by
  have hlength : ls'.length = ls.length := by
    simpa [tokensOf] using congrArg List.length htokens
  simp only [processScript, h, h', htokens, hlength]

/-- A script whose tokens are laid out anew, in any way that keeps names apart, has the same tokens
in the same order, and it does the same: it ends in the same way, with the same error if with any,
and with the same records. -/
theorem runScript_of_laidOut {text text' : String} {ls : List Lexeme} (h : tokenize text = .ok ls)
    {lead cs : List Char} (hlead : Gap lead) (hcs : LaidOut (tokensOf ls) cs)
    (htext : text'.toList = lead ++ cs) :
    (∃ ls', tokenize text' = .ok ls' ∧ tokensOf ls' = tokensOf ls) ∧
      ∀ limits grammar width height,
        runScript limits grammar text' width height =
          runScript limits grammar text width height := by
  have hspells : Spells text'.toList (tokensOf ls) := by
    rw [htext]
    exact hlead.spells (hcs.spells (spelled_of_tokenize h))
  obtain ⟨ls', hls', htokens⟩ := tokenize_of_spells hspells (balanced_of_tokenize h)
  exact ⟨⟨ls', hls', htokens⟩, fun limits grammar _ _ =>
    processScript_congr h hls' htokens limits grammar _⟩

/-- Slashes and quotes in names are no comments and start no tokens, and the error names the same
token. -/
theorem runScript_of_laidOut_odd_names :
    let text := "IF :a//b [ ] x\"y"
    let text' := "//one\nIF\t:a//b[//two\n]x\"y \n"
    (∃ ls', tokenize text' = .ok ls' ∧ tokensOf ls' =
        [.ofWord "IF", ⟨.variable, "a//b"⟩, .opening, .closing, .ofWord "x\"y"]) ∧
      ∀ limits grammar width height,
        runScript limits grammar text' width height =
          runScript limits grammar text width height := by
  intro text text'
  have htext : tokenize text = .ok
      [⟨.ofWord "IF", ⟨1, 1⟩⟩, ⟨⟨.variable, "a//b"⟩, ⟨1, 4⟩⟩, ⟨.opening, ⟨1, 10⟩⟩,
        ⟨.closing, ⟨1, 12⟩⟩, ⟨.ofWord "x\"y", ⟨1, 14⟩⟩] := by
    decide +kernel
  have hone : Gap ('/' :: '/' :: (['o', 'n', 'e'] ++ ['\n'])) := .comment (by decide) .nil
  have htwo : Gap ('/' :: '/' :: (['t', 'w', 'o'] ++ ['\n'])) := .comment (by decide) .nil
  have htab : Separates (.ofWord "IF") ['\t'] (some ⟨.variable, "a//b"⟩) :=
    ⟨.blank rfl .nil, by simp [isSkipped], by simp⟩
  have hnone : Separates ⟨.variable, "a//b"⟩ [] (some .opening) :=
    ⟨.nil, by simp, by rintro - _ ⟨⟩ ⟨⟩⟩
  have hopening : Separates .opening ('/' :: '/' :: (['t', 'w', 'o'] ++ ['\n'])) (some .closing) :=
    .of_isBracket rfl htwo _
  have hclosing : Separates .closing [] (some (.ofWord "x\"y")) := .of_isBracket rfl .nil _
  have hend : Separates (.ofWord "x\"y") [' ', '\n'] none :=
    ⟨.blank rfl (.blank rfl .nil), by simp [isSkipped], by simp⟩
  have hcs := LaidOut.cons htab (.cons hnone (.cons hopening (.cons hclosing (.cons hend .nil))))
  exact runScript_of_laidOut htext hone hcs (by decide)

end TurtleGraphics
