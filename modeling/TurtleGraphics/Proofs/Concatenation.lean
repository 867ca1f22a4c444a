import TurtleGraphics.Proofs.ScriptText
import TurtleGraphics.Proofs.Splitting

/-!
# TurtleGraphics.Proofs.Concatenation

A script behind another one.

* `Spells.line`            : a text on the lines behind another spells the tokens of both.
* `Script.Derived.append`  : a script is derived behind another under the declarations of that.
* `Script.Derived.congr`   : declarations only matter for the words among the tokens.
* `signaturesOf`           : the procedures that the parse of a text declares.
* `parseScript_append`     : two texts are parsed one behind the other as they are by themselves.

What keeps the second text apart is the line feed, which ends a comment as well as a name.
-/

namespace TurtleGraphics

open TurtleGraphics.Text

/-! ## Texts -/

theorem Splits.append {p q : Place} {cs rest more : List Char} {ls : List Lexeme}
    (h : Splits p cs ls q rest) (hmore : nameFollows more.head? = false) :
    Splits p (cs ++ more) ls q (rest ++ more) := by
  induction h with
  | done => exact .done
  | skip hgap _ ih =>
    rw [List.append_assoc]
    exact .skip hgap ih
  | @token p q t cs rest ls ht hend _ ih =>
    rw [List.append_assoc]
    refine .token ht (fun hb => ?_) ih
    cases cs with
    | nil => exact hmore
    | cons c cs => exact hend hb

theorem OpenComment.gap {cs : List Char} (h : OpenComment cs) : Gap (cs ++ ['\n']) := by
  obtain ⟨text, rfl, htext⟩ := h
  exact .comment htext .nil

/-- A text and a text on the lines behind it spell the tokens of both. -/
theorem Spells.line {cs ds : List Char} {ts us : List Token} (h : Spells cs ts)
    (hd : Spells ds us) : Spells (cs ++ '\n' :: ds) (ts ++ us) := by
  intro p
  obtain ⟨ls, hls, rfl⟩ := h p
  obtain ⟨q, rest, hsplit, hrest⟩ := splits_of_scan hls
  have hgap : Gap (rest ++ ['\n']) := by
    obtain rfl | hopen := hrest
    · exact .blank rfl .nil
    · exact hopen.gap
  obtain ⟨ms, hms, rfl⟩ := hd (q.behind (rest ++ ['\n']))
  have hfeed : nameFollows ('\n' :: ds).head? = false := rfl
  refine ⟨ls ++ ms, ?_, List.map_append⟩
  rw [(hsplit.append hfeed).scan, List.append_cons, hgap.scan, hms]
  rfl

/-- A text is split in the same way from any place. -/
theorem Splits.move {p q : Place} {cs rest : List Char} {ls : List Lexeme}
    (h : Splits p cs ls q rest) :
    ∀ p', ∃ ls' q', Splits p' cs ls' q' rest ∧ tokensOf ls' = tokensOf ls := by
  induction h with
  | done => exact fun p' => ⟨[], p', .done, rfl⟩
  | @skip p q gap cs rest ls hgap _ ih =>
    intro p'
    obtain ⟨ls', q', hsplit, htokens⟩ := ih (p'.behind gap)
    exact ⟨ls', q', .skip hgap hsplit, htokens⟩
  | @token p q t cs rest ls ht hend _ ih =>
    intro p'
    obtain ⟨ls', q', hsplit, htokens⟩ := ih (p'.behind t.raw.toList)
    exact ⟨⟨t, p'⟩ :: ls', q', .token ht hend hsplit, congrArg (t :: ·) htokens⟩

theorem spells_of_tokenize {text : String} {ls : List Lexeme} (h : tokenize text = .ok ls) :
    Spells text.toList (tokensOf ls) := by
  intro p
  obtain ⟨q, rest, hsplit, hrest⟩ := splits_of_scan (lexemes_of_tokenize h)
  obtain ⟨ls', q', hsplit', htokens⟩ := hsplit.move p
  exact ⟨ls', hsplit'.scan_of_ending hrest, htokens⟩

/-! ## Scripts -/

/-- Two lists of declarations say the same about each word among some tokens. -/
def Declarations.AgreeOn (ts : List Token) (d d' : Declarations) : Prop :=
  ∀ name, Token.ofWord name ∈ ts → d'.arity? name = d.arity? name

section

variable {d d' : Declarations} {ts us : List Token}

theorem Declarations.AgreeOn.mono (h : d.AgreeOn us d') (hsub : ts ⊆ us) : d.AgreeOn ts d' :=
  fun name hmem => h name (hsub hmem)

theorem Declarations.AgreeOn.cons (h : d.AgreeOn ts d') (name : String) (n : Nat) :
    Declarations.AgreeOn ts ((name, n) :: d) ((name, n) :: d') := by
  intro other hmem
  have hother : d'.lookup other = d.lookup other := h other hmem
  simp only [Declarations.arity?, List.lookup_cons, hother]

end

mutual

theorem Stmt.Derived.congr {d d' : Declarations} {ts : List Token} {s : Stmt} :
    Stmt.Derived d ts s → d.AgreeOn ts d' → Stmt.Derived d' ts s
  | .command hw hv hes hlength, _ => .command hw hv hes hlength
  | .assignment hw hv he, _ => .assignment hw hv he
  | .ifThen hw hc ho hb hcl, h =>
    .ifThen hw hc ho (hb.congr (h.mono fun t ht => by simp [ht])) hcl
  | .whileDo hw hc ho hb hcl, h =>
    .whileDo hw hc ho (hb.congr (h.mono fun t ht => by simp [ht])) hcl
  | .call hname harity hes, h =>
    .call hname ((h _ List.mem_cons_self).trans harity) hes

theorem Stmt.AllDerived.congr {d d' : Declarations} {ts : List Token} {ss : List Stmt} :
    Stmt.AllDerived d ts ss → d.AgreeOn ts d' → Stmt.AllDerived d' ts ss
  | .nil, _ => .nil
  | .cons hs hss, h =>
    .cons (hs.congr (h.mono (List.subset_append_left _ _)))
      (hss.congr (h.mono (List.subset_append_right _ _)))

end

theorem Declarations.AllowsParameter.congr {d d' : Declarations} {name : String} {t : Token}
    (h : d.AllowsParameter name t) (hagree : d.AgreeOn [t] d') : d'.AllowsParameter name t := by
  obtain hquoted | ⟨hword, hreserved, hd, hname⟩ := h
  · exact .inl hquoted
  · have ht : Token.ofWord t.text ∈ [t] := by
      rw [← Expr.eq_ofWord hword]
      exact List.mem_cons_self
    exact .inr ⟨hword, hreserved, (hagree _ ht).trans hd, hname⟩

theorem Script.Derived.congr {d d' : Declarations} {ts : List Token} {script : Script}
    (h : Script.Derived d ts script) (hagree : d.AgreeOn ts d') : Script.Derived d' ts script := by
  induction h generalizing d' with
  | nil => exact .nil
  | statement hs _ ih =>
    exact .statement (hs.congr (hagree.mono (List.subset_append_left _ _)))
      (ih (hagree.mono (List.subset_append_right _ _)))
  | definition hstart hname hall hnodup hbody hstop _ ih =>
    refine .definition hstart hname (fun t ht => ?_) hnodup ?_ hstop ?_
    · refine (hall t ht).congr (hagree.mono fun u hu => ?_)
      obtain rfl := List.mem_singleton.mp hu
      simp [ht]
    · exact hbody.congr ((hagree.cons _ _).mono fun u hu => by simp [hu])
    · exact ih ((hagree.cons _ _).mono fun u hu => by simp [hu])

theorem Script.Derived.append {d : Declarations} {ts us : List Token} {a b : Script}
    (ha : Script.Derived d ts a) (hb : Script.Derived (Script.declarations d a) us b) :
    Script.Derived d (ts ++ us) (a ++ b) := by
  induction ha with
  | nil => exact hb
  | statement hs _ ih =>
    rw [declarations_cons_of_derived hs] at hb
    rw [List.append_assoc]
    exact .statement hs (ih hb)
  | definition hstart hname hall hnodup hbody hstop _ ih =>
    simp only [List.cons_append, List.append_assoc]
    refine .definition hstart hname hall hnodup hbody hstop (ih ?_)
    simpa [Script.declarations] using hb

/-- The words that a script defines are among its tokens. -/
theorem Script.Derived.ofWord_mem {d : Declarations} {ts : List Token} {script : Script}
    (h : Script.Derived d ts script) {name : String} (hname : name ∈ Script.defined script) :
    Token.ofWord name ∈ ts := by
  induction h with
  | nil => cases hname
  | statement hs _ ih =>
    rw [Script.defined_cons_of_derived hs] at hname
    exact List.mem_append_right _ (ih hname)
  | definition _ _ _ _ _ _ _ ih =>
    obtain rfl | hname := List.mem_cons.mp hname
    · simp
    · simp [ih hname]

namespace Script

theorem arity?_declarations {script : Script} {name : String} (h : name ∉ defined script) :
    (declarations [] script).arity? name = none := by
  rw [Declarations.arity?, List.lookup_eq_none_iff]
  rintro ⟨other, n⟩ hmem
  have hother : other ∈ defined script := by
    rw [← List.mem_reverse, ← map_fst_declarations]
    exact List.mem_map_of_mem hmem
  simpa using fun heq : name = other => h (heq ▸ hother)

theorem mem_names_signatures {script : Script} {name : String} :
    name ∈ (declarations [] script).signatures.names ↔ name ∈ defined script := by
  rw [Declarations.signatures, Bindings.mem_names_ofList, List.map_reverse, map_fst_declarations,
    List.reverse_reverse]

theorem entries_signatures_append {a b : Script} (h : ∀ name ∈ defined a, name ∉ defined b) :
    (declarations [] (a ++ b)).signatures.entries =
      (declarations [] a).signatures.entries ++ (declarations [] b).signatures.entries := by
  rw [declarations_append, declarations_eq_append, Declarations.signatures, List.reverse_append]
  refine Bindings.entries_ofList_append fun name hb ha => ?_
  rw [List.map_reverse, map_fst_declarations, List.reverse_reverse] at ha hb
  exact h name ha hb

end Script

/-! ## Parses -/

/-- The procedures that the parse of a text declares, with their numbers of parameters. -/
def signaturesOf (limit : Nat) (text : String) : Bindings String Nat :=
  match tokenize text with
  | .error _ => .empty
  | .ok ls => (parse limit (tokensOf ls)).2.signatures

theorem signaturesOf_eq {limit : Nat} {text : String} {ls : List Lexeme} {script : Script}
    (hls : tokenize text = .ok ls) (h : Script.Derived [] (tokensOf ls) script)
    (hn : Stmt.allNesting script ≤ limit) :
    signaturesOf limit text = (Script.declarations [] script).signatures := by
  simp only [signaturesOf, hls, parse_of_derived h hn]

/-- Two texts are parsed one behind the other, on lines of their own, as they are by themselves, if
no word of the second is the name of a procedure that the first defines. The procedures that are
declared are those of the first and behind them those of the second. -/
theorem parseScript_append {limit : Nat} {text₁ text₂ : String} {a b : Script}
    {ls₂ : List Lexeme} (h₁ : parseScript limit text₁ = .ok a)
    (h₂ : parseScript limit text₂ = .ok b) (hls₂ : tokenize text₂ = .ok ls₂)
    (hnew : ∀ name ∈ Script.defined a, Token.ofWord name ∉ tokensOf ls₂) :
    let both := text₁ ++ "\n" ++ text₂
    parseScript limit both = .ok (a ++ b) ∧
      (signaturesOf limit both).entries =
        (signaturesOf limit text₁).entries ++ (signaturesOf limit text₂).entries ∧
      ∀ name n, (signaturesOf limit both).lookup? name = some n ↔
        (signaturesOf limit text₁).lookup? name = some n ∨
          (signaturesOf limit text₂).lookup? name = some n := by
  intro both
  obtain ⟨ls₁, hls₁, ha, hna⟩ := tokenize_of_parseScript h₁
  obtain ⟨_, hls, hb, hnb⟩ := tokenize_of_parseScript h₂
  obtain rfl := Except.ok.inj (hls₂.symm.trans hls)
  have hagree : Declarations.AgreeOn (tokensOf ls₂) [] (Script.declarations [] a) :=
    fun name hmem => Script.arity?_declarations fun hdefined => hnew name hdefined hmem
  have hderived : Script.Derived [] (tokensOf ls₁ ++ tokensOf ls₂) (a ++ b) :=
    ha.append (hb.congr hagree)
  have hn : Stmt.allNesting (a ++ b) ≤ limit := by
    rw [Stmt.allNesting_append]
    exact Nat.max_le.mpr ⟨hna, hnb⟩
  have hspells : Spells both.toList (tokensOf ls₁ ++ tokensOf ls₂) := by
    have hline := (spells_of_tokenize hls₁).line (spells_of_tokenize hls₂)
    simpa [both] using hline
  have hapart : ∀ name ∈ Script.defined a, name ∉ Script.defined b :=
    fun name hmem hmem' => hnew name hmem (hb.ofWord_mem hmem')
  obtain ⟨ls, hls, htokens⟩ := tokenize_of_spells hspells hderived.balanced
  rw [signaturesOf_eq hls (htokens ▸ hderived) hn, signaturesOf_eq hls₁ ha hna,
    signaturesOf_eq hls₂ hb hnb]
  have hentries := Script.entries_signatures_append hapart
  refine ⟨parseScript_of_spells hspells hderived hn, hentries, fun name n => ?_⟩
  refine Bindings.lookup?_eq_some_of_append hentries (fun other hmem hmem' => ?_) name n
  exact hapart other (Script.mem_names_signatures.mp hmem) (Script.mem_names_signatures.mp hmem')

/-- The comment ends with its line, and a quoted parameter may have the name of a procedure. -/
theorem parseScript_append_comment :
    let text₁ := "TO P a END\nP \"TRUE // ]"
    let text₂ := "TO Q \"P a IF :P [ PENUP ] END Q \"TRUE \"FALSE"
    let both := text₁ ++ "\n" ++ text₂
    parseScript 9 both = .ok [.define "P" ["a"] [], .call "P" [.boolean true],
        .define "Q" ["P", "a"] [.ifThen (.variable "P") [.command .penUp [] none]],
        .call "Q" [.boolean true, .boolean false]] ∧
      (signaturesOf 9 both).entries = [("P", 1), ("Q", 2)] := by
  intro text₁ text₂ both
  have hls₁ : tokenize text₁ = .ok
      [⟨.ofWord "TO", ⟨1, 1⟩⟩, ⟨.ofWord "P", ⟨1, 4⟩⟩, ⟨.ofWord "a", ⟨1, 6⟩⟩,
        ⟨.ofWord "END", ⟨1, 8⟩⟩, ⟨.ofWord "P", ⟨2, 1⟩⟩, ⟨.ofQuoted "TRUE", ⟨2, 3⟩⟩] := by
    decide +kernel
  have hls₂ : tokenize text₂ = .ok
      [⟨.ofWord "TO", ⟨1, 1⟩⟩, ⟨.ofWord "Q", ⟨1, 4⟩⟩, ⟨.ofQuoted "P", ⟨1, 6⟩⟩,
        ⟨.ofWord "a", ⟨1, 9⟩⟩, ⟨.ofWord "IF", ⟨1, 11⟩⟩, ⟨⟨.variable, "P"⟩, ⟨1, 14⟩⟩,
        ⟨.opening, ⟨1, 17⟩⟩, ⟨.ofWord "PENUP", ⟨1, 19⟩⟩, ⟨.closing, ⟨1, 25⟩⟩,
        ⟨.ofWord "END", ⟨1, 27⟩⟩, ⟨.ofWord "Q", ⟨1, 31⟩⟩, ⟨.ofQuoted "TRUE", ⟨1, 33⟩⟩,
        ⟨.ofQuoted "FALSE", ⟨1, 39⟩⟩] := by
    decide +kernel
  have h₁ : parseScript 9 text₁ = .ok [.define "P" ["a"] [], .call "P" [.boolean true]] := by
    rw [parseScript, hls₁]
    with_unfolding_all rfl
  have h₂ : parseScript 9 text₂ = .ok
      [.define "Q" ["P", "a"] [.ifThen (.variable "P") [.command .penUp [] none]],
        .call "Q" [.boolean true, .boolean false]] := by
    rw [parseScript, hls₂]
    with_unfolding_all rfl
  have hentries : (signaturesOf 9 text₁).entries ++ (signaturesOf 9 text₂).entries =
      [("P", 1), ("Q", 2)] := by
    rw [signaturesOf, signaturesOf, hls₁, hls₂]
    decide +kernel
  obtain ⟨hscript, hsignatures, -⟩ := parseScript_append h₁ h₂ hls₂ (by decide)
  exact ⟨hscript, hsignatures.trans hentries⟩

end TurtleGraphics
