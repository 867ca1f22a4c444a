import TurtleGraphics.Program
import TurtleGraphics.Proofs.Partners
import TurtleGraphics.Proofs.ReadComplete
import TurtleGraphics.Proofs.Spelling

/-!
# TurtleGraphics.Proofs.ScriptText

The grammar of scripts in terms of texts.

* `Script.Derived.balanced` : the brackets of a script pair up, so no check of them fails.
* `balanced_of_tokenize`    : so do those of every text that is split into tokens.
* `derived_of_parseScript`  : a text that parses spells the tokens that its tree is derived from.
* `parseScript_of_spells`   : a text that spells the tokens of a tree parses to that tree.
-/

namespace TurtleGraphics

theorem Declarations.AllowsParameter.isBracket {d : Declarations} {procedure : String} {t : Token}
    (h : d.AllowsParameter procedure t) : t.isBracket = false := by
  rcases h with h | ⟨h, -⟩ <;> simp [Token.isBracket, h]

/-- Every bracket of a script has its partner. -/
theorem Script.Derived.balanced {d : Declarations} {ts : List Token} {script : Script}
    (h : Script.Derived d ts script) : Balanced ts := by
  induction h with
  | nil => exact .nil
  | statement hs _ ih => exact hs.balanced.append ih
  | definition _ _ hall _ hbody _ _ ih =>
    have hps := Balanced.of_plain fun t ht => (hall t ht).isBracket
    exact .plain rfl (.plain rfl (hps.append (hbody.balanced.append (.plain rfl ih))))

theorem balanced_of_tokenize {text : String} {ls : List Lexeme} (h : tokenize text = .ok ls) :
    Balanced (tokensOf ls) := by
  simp only [tokenize] at h
  split at h
  · cases h
  · split at h
    · cases h
    · rename_i hnone
      cases h
      exact unbalanced_eq_none_iff.mp hnone

/-- A text without brackets out of place is split into the tokens that it spells. -/
theorem tokenize_of_spells {text : String} {ts : List Token} (h : Spells text.toList ts)
    (hb : Balanced ts) : ∃ ls, tokenize text = .ok ls ∧ tokensOf ls = ts := by
  obtain ⟨ls, hls, hts⟩ := lexemes_of_spells h
  have hnone := hb.unbalanced_append [] ls [] hts
  rw [List.append_nil] at hnone
  exact ⟨ls, by simp [tokenize, hls, hnone, unbalanced], hts⟩

theorem tokenize_of_parseScript {limit : Nat} {text : String} {script : Script}
    (h : parseScript limit text = .ok script) :
    ∃ ls, tokenize text = .ok ls ∧ Script.Derived [] (tokensOf ls) script ∧
      Stmt.allNesting script ≤ limit := by
  simp only [parseScript] at h
  split at h
  · cases h
  · rename_i ls hls
    split at h
    · cases h
    · rename_i found hf
      cases h
      exact ⟨ls, hls, derived_of_parse hf⟩

theorem derived_of_parseScript {limit : Nat} {text : String} {script : Script}
    (h : parseScript limit text = .ok script) :
    ∃ ts, AllSpelled ts ∧ Script.Derived [] ts script ∧ Stmt.allNesting script ≤ limit := by
  obtain ⟨ls, hls, hderived⟩ := tokenize_of_parseScript h
  exact ⟨tokensOf ls, spelled_of_tokenize hls, hderived⟩

theorem parseScript_of_spells {limit : Nat} {text : String} {ts : List Token} {script : Script}
    (ht : Spells text.toList ts) (h : Script.Derived [] ts script)
    (hn : Stmt.allNesting script ≤ limit) : parseScript limit text = .ok script := by
  obtain ⟨ls, hls, rfl⟩ := tokenize_of_spells ht h.balanced
  simp only [parseScript, hls, parse_of_derived h hn]

end TurtleGraphics
