import TurtleGraphics.Proofs.ScriptText
import TurtleGraphics.Proofs.StatementPhrases

/-!
# TurtleGraphics.Proofs.WrongToken

A parse that fails points at the first wrong token: what stands before it is the beginning of a
script, and with the token it is not. A parse that fails at the end of its tokens has read the
beginning of a script.

The one fault that is about something else is that of a definition without `END`, which is shown
with the name of the procedure and found before the body is read.

* `procedure`, `definition` : parameters with a body, and what stands behind a `TO`.
* `readDefinition_blames` : the reader of definitions blames the right token.
* `Script.Item`         : a statement of the top level, with the declarations behind it.
* `Script.Stuck`        : a whole script cannot go on with the next token.
* `topSequence_blames`  : the reader of scripts blames the right token.
* `parse_points_at_first_wrong_token` : so does the parse of a text.
-/

namespace TurtleGraphics

/-! ## Parameters and bodies -/

/-- The parameters of a procedure and its body, with its `END`. -/
def procedure (d : Declarations) (name : String) : Phrase := fun us =>
  ∃ ps c, us = ps ++ c ∧ (∀ t ∈ ps, d.AllowsParameter name t) ∧ (ps.map Token.text).Nodup ∧
    Stmt.filling ((name, ps.length) :: d) (fun t => isEnd t = true) c

/-- A definition behind its `TO`. -/
def definition (d : Declarations) : Phrase := fun us =>
  ∃ name c, us = .ofWord name :: c ∧ isReserved name = false ∧ procedure d name c

section

variable {d : Declarations} {name : String}

theorem not_isParameter_of_filling {n : Nat} {t : Token} {c : List Token}
    (h : Stmt.filling ((name, n) :: d) (fun t => isEnd t = true) (t :: c)) :
    isParameter d name t = false := by
  obtain ⟨bs, stop, ss, heq, hss, hstop⟩ := h
  cases hss with
  | nil =>
    obtain ⟨rfl, -⟩ := List.cons.inj heq
    obtain ⟨hword, hend⟩ := eq_ofWord_of_isEnd hstop
    rw [hword]
    exact not_isParameter_of_reserved (isReserved_of_of? hend)
  | cons hs hss =>
    obtain ⟨u, us, rfl⟩ := List.exists_cons_of_ne_nil hs.ne_nil
    obtain ⟨rfl, -⟩ := List.cons.inj heq
    exact hs.not_isParameter

theorem takeWhile_isParameter {ps : List Token} (hps : ∀ t ∈ ps, d.AllowsParameter name t)
    {t : Token} (ht : isParameter d name t = false) (rest : List Token) :
    (ps ++ t :: rest).takeWhile (isParameter d name) = ps := by
  rw [List.takeWhile_append_of_pos fun u hu => isParameter_iff.mpr (hps u hu),
    List.takeWhile_cons_of_neg (by simp [ht]), List.append_nil]

/-- The parameters of a procedure are the tokens at its front that may be parameters. -/
theorem takeWhile_of_filling {ps c : List Token} (hps : ∀ t ∈ ps, d.AllowsParameter name t)
    (hc : Stmt.filling ((name, ps.length) :: d) (fun t => isEnd t = true) c) (x : List Token) :
    (ps ++ (c ++ x)).takeWhile (isParameter d name) = ps := by
  cases c with
  | nil => exact absurd hc Stmt.not_filling_nil
  | cons t c => exact takeWhile_isParameter hps (not_isParameter_of_filling hc) (c ++ x)

/-- A procedure is stuck at a second parameter of the same name. -/
theorem procedure_stuck_duplicate {ps : List Token} {dup : Token}
    (hps : ∀ t ∈ ps, d.AllowsParameter name t) (hnodup : (ps.map Token.text).Nodup)
    (hdup : d.AllowsParameter name dup) (hmem : dup.text ∈ ps.map Token.text)
    (rest : List Token) :
    (procedure d name).Stuck (ps ++ dup :: rest) (dup :: rest) := by
  refine ⟨ps, rfl, ⟨[.ofWord "END"], ps, _, rfl, hps, hnodup, Stmt.filling_of_end rfl⟩, ?_⟩
  rintro _ _ ⟨rfl, rfl⟩ more _ x heq ⟨ps', c, rfl, hps', hnodup', hc⟩
  -- All that has been read is among the parameters, so the name is twice among them.
  have hread : ∀ t ∈ ps ++ [dup], d.AllowsParameter name t :=
    List.forall_mem_append.mpr ⟨hps, List.forall_mem_singleton.mpr hdup⟩
  have htake := takeWhile_of_filling hps' hc x
  rw [← List.append_assoc, ← heq,
    List.takeWhile_append_of_pos fun t ht => isParameter_iff.mpr (hread t ht)] at htake
  rw [← htake, List.append_assoc, List.map_append, List.nodup_append] at hnodup'
  exact hnodup'.2.2 _ hmem _ (by simp) rfl

/-- Behind its parameters a procedure is stuck where its body is. -/
theorem procedure_stuck_body {ps us rest : List Token}
    (hps : ∀ t ∈ ps, d.AllowsParameter name t) (hnodup : (ps.map Token.text).Nodup)
    (hhead : ∀ t tail, us = t :: tail → isParameter d name t = false)
    (h : (Stmt.filling ((name, ps.length) :: d) (fun t => isEnd t = true)).Stuck us rest) :
    (procedure d name).Stuck (ps ++ us) rest := by
  obtain ⟨used, rfl, ⟨more, hmore⟩, hnot⟩ := h
  refine ⟨ps ++ used, by simp, ⟨more, ps, used ++ more, by simp, hps, hnodup, hmore⟩, ?_⟩
  rintro t tail rfl more' _ x heq ⟨ps', c, rfl, hps', -, hc⟩
  obtain ⟨u, us, hu⟩ : ∃ u us, used ++ [t] ++ more' = u :: us ∧ isParameter d name u = false := by
    cases used with
    | nil => exact ⟨t, more', rfl, hhead t tail rfl⟩
    | cons u used => exact ⟨u, used ++ [t] ++ more', rfl, hhead u (used ++ t :: tail) rfl⟩
  have hsplit : ps ++ (used ++ [t] ++ more') = ps' ++ (c ++ x) := by
    simpa only [List.append_assoc] using heq
  have htake := takeWhile_of_filling hps' hc x
  rw [← hsplit, hu.1, takeWhile_isParameter hps hu.2] at htake
  subst htake
  exact hnot t tail rfl more' c x (List.append_cancel_left hsplit) hc

theorem definition_cons (hname : isReserved name = false) (a : List Token) :
    definition d (.ofWord name :: a) ↔ procedure d name a := by
  constructor
  · rintro ⟨other, c, heq, -, hc⟩
    obtain ⟨hword, rfl⟩ := List.cons.inj heq
    obtain rfl : name = other := congrArg Token.text hword
    exact hc
  · intro ha
    exact ⟨name, a, rfl, hname, ha⟩

theorem not_definition_nil : ¬ definition d [] := by
  rintro ⟨name, c, hnil, -⟩
  cases hnil

/-- A procedure without parameters and with an empty body. -/
theorem definition_empty : definition d [.ofWord "P", .ofWord "END"] :=
  ⟨"P", _, rfl, by decide, [], _, rfl, by simp, by simp, Stmt.filling_of_end rfl⟩

theorem definition_stuck_here {t : Token} (h : t.kind = .word → isReserved t.text = true)
    (ts : List Token) : (definition d).Stuck (t :: ts) (t :: ts) := by
  refine .here definition_empty ?_ not_definition_nil
  rintro _ _ ⟨rfl, rfl⟩ b ⟨name, c, heq, hname, -⟩
  obtain ⟨rfl, -⟩ := List.cons.inj heq
  have hreserved := h rfl
  rw [Token.text_ofWord, hname] at hreserved
  cases hreserved

/-! ## Reading definitions -/

/-- Reading parameters fails only at a name that is there twice. -/
theorem readParameters_error {s : Stop} (taken : List Token) {ts : List Token}
    (htaken : ∀ t ∈ taken, d.AllowsParameter name t) (hnodup : (taken.map Token.text).Nodup)
    (h : readParameters d name (taken.reverse.map Token.text) ts = .error s) :
    ∃ (ps : List Token) (dup : Token) (rest : List Token),
      taken ++ ts = ps ++ dup :: rest ∧
      s = .fault (.duplicateParameter dup.text name) (dup :: rest) ∧
      (∀ t ∈ ps, d.AllowsParameter name t) ∧ (ps.map Token.text).Nodup ∧
      d.AllowsParameter name dup ∧ dup.text ∈ ps.map Token.text := by
  induction ts generalizing taken with
  | nil => cases h
  | cons t ts ih =>
    rw [readParameters] at h
    split at h
    · rename_i hp
      have ht := isParameter_iff.mp hp
      split at h
      · rename_i hold
        cases h
        exact ⟨taken, t, ts, rfl, rfl, htaken, hnodup, ht, by simpa using hold⟩
      · rename_i hnew
        have hmore : ∀ u ∈ taken ++ [t], d.AllowsParameter name u :=
          List.forall_mem_append.mpr ⟨htaken, List.forall_mem_singleton.mpr ht⟩
        have hnodup' : ((taken ++ [t]).map Token.text).Nodup := by
          rw [List.map_append, List.nodup_append]
          refine ⟨hnodup, by simp, ?_⟩
          rintro a ha b hb rfl
          obtain rfl := List.mem_singleton.mp hb
          exact hnew (by simpa using ha)
        have hsplit : taken ++ t :: ts = taken ++ [t] ++ ts := by simp
        rw [hsplit]
        exact ih (taken ++ [t]) hmore hnodup' (by simpa using h)
    · cases h

/-- Parameters are read up to a token that may not be one. -/
theorem not_isParameter_of_readParameters {taken ps : List String} {ts rest : List Token}
    (h : readParameters d name taken ts = .ok (ps, rest)) :
    ∀ t tail, rest = t :: tail → isParameter d name t = false := by
  induction ts generalizing taken with
  | nil =>
    cases h
    intro t tail heq
    cases heq
  | cons u ts ih =>
    rw [readParameters] at h
    split at h
    · split at h
      · cases h
      · exact ih h
    · rename_i hp
      cases h
      rintro _ _ ⟨rfl, rfl⟩
      simpa using hp

/-- The body behind a heading starts with no parameter, and the `END` that is found is the first. -/
theorem readHeading_rest {ts : List Token} {h : Heading} (hread : readHeading d ts = .ok h) :
    (∀ t tail, h.rest = t :: tail → isParameter d h.name t = false) ∧
      ∀ t ∈ h.rest.take h.bodyLength, isEnd t = false := by
  cases ts with
  | nil => cases hread
  | cons t ts =>
    simp only [readHeading] at hread
    split at hread
    · split at hread
      · cases hread
      · split at hread
        · cases hread
        · rename_i ps rest₁ hps
          split at hread
          · cases hread
          · rename_i n hn
            cases hread
            refine ⟨not_isParameter_of_readParameters hps, ?_⟩
            obtain ⟨hlt, -, hbefore⟩ := List.findIdx?_eq_some_iff_getElem.mp hn
            intro u hu
            obtain ⟨j, hj, rfl⟩ := List.mem_take_iff_getElem.mp hu
            simpa using hbefore j (Nat.lt_of_lt_of_le hj (Nat.min_le_left _ _))
    · cases hread

theorem readHeading_blames (ts : List Token) :
    Blames ((definition d).Stuck ts) (readHeading d ts) := by
  cases ts with
  | nil => exact .fault rfl (.atEnd definition_empty)
  | cons t ts =>
    simp only [readHeading]
    split
    · rename_i hk
      split
      · rename_i hres
        exact .fault rfl (definition_stuck_here (fun _ => hres) ts)
      · rename_i hres
        split
        · rename_i s hs
          obtain ⟨ps, dup, rest, hts, rfl, hps, hnodup, hdup, hmem⟩ :=
            readParameters_error [] (by simp) (by simp) hs
          obtain rfl : ts = ps ++ dup :: rest := hts
          have hstuck := procedure_stuck_duplicate hps hnodup hdup hmem rest
          rw [Expr.eq_ofWord hk]
          exact .fault rfl (hstuck.cons (definition_cons (by simpa using hres)) not_definition_nil)
        · split
          · intro why rest heq
            cases heq
            exact .inl ⟨_, rfl⟩
          · exact .ok _
    · rename_i hk
      exact .fault rfl (definition_stuck_here (fun hword => absurd hword hk) ts)

theorem readDefinition_blames (hd : d.Unreserved) (limit : Nat) {ts : List Token}
    (hbalanced : Balanced ts) :
    Blames ((definition d).Stuck ts) (readDefinition limit d ts).1 := by
  simp only [readDefinition]
  split
  · rename_i hs
    exact (readHeading_blames ts).error hs fun _ h => h
  · rename_i h hh
    obtain ⟨ps, bs, us, stop, rfl, hrest, hlength, hres, hparameters, hnodup, hps, hstop⟩ :=
      readHeading_sound hh
    obtain ⟨hhead, hbefore⟩ := readHeading_rest hh
    have hcount : h.parameters.length = ps.length := by simp [hparameters]
    rw [hparameters] at hnodup
    have hparams : Balanced (.ofWord h.name :: ps) :=
      .plain rfl (.of_plain fun t ht => (hps t ht).isBracket)
    have hinside : InBody h.bodyLength h.rest := by
      refine ⟨hparams.of_append hbalanced, bs, .ofWord stop, us, hrest, hlength, ?_, ?_⟩
      · intro t ht
        refine hbefore t ?_
        rwa [hrest, ← hlength, List.take_left]
      · simp [isEnd, hstop]
    split
    · rename_i hs
      rw [hcount] at hs
      have hd₁ := hd.cons hres ps.length
      exact (sequence_blames ranges_body (Stmt.read_sound hd₁ limit) (Stmt.read_blames hd₁ limit)
        hinside).error hs fun _ h =>
          (procedure_stuck_body hps hnodup hhead h).cons (definition_cons hres) not_definition_nil
    · exact .ok _

end

/-! ## Scripts -/

/-- A statement of the top level, with the declarations in force behind it. -/
inductive Script.Item (d : Declarations) : List Token → Stmt → Declarations → Prop where
  | statement {ts : List Token} {s : Stmt} : Stmt.Derived d ts s → Script.Item d ts s d
  | definition {start stop name : String} {ps bs : List Token} {body : List Stmt} :
      Keyword.of? start = some .procedureStart → isReserved name = false →
      (∀ t ∈ ps, d.AllowsParameter name t) → (ps.map Token.text).Nodup →
      Stmt.AllDerived ((name, ps.length) :: d) bs body →
      Keyword.of? stop = some .procedureEnd →
      Script.Item d (.ofWord start :: .ofWord name :: (ps ++ (bs ++ [.ofWord stop])))
        (.define name (ps.map Token.text) body) ((name, ps.length) :: d)

namespace Script

variable {d d₁ : Declarations} {s : Stmt} {t : Token} {ts us rest : List Token}

theorem Item.ne_nil (h : Item d ts s d₁) : ts ≠ [] := by
  cases h with
  | statement hs => exact hs.ne_nil
  | definition _ _ _ _ _ _ => simp

theorem Item.derived {script : Script} (h : Item d ts s d₁) (hrest : Script.Derived d₁ us script) :
    Script.Derived d (ts ++ us) (s :: script) := by
  cases h with
  | statement hs => exact .statement hs hrest
  | definition hstart hname hall hnodup hbody hstop =>
    have hscript := Script.Derived.definition hstart hname hall hnodup hbody hstop hrest
    simpa using hscript

/-- A statement of the top level is a script by itself. -/
theorem Item.script (h : Item d ts s d₁) : Script.Derived d ts [s] := by
  have hscript := h.derived .nil
  rwa [List.append_nil] at hscript

/-- A script that is not empty starts with a statement of the top level. -/
theorem item_of_derived {script : Script} (h : Script.Derived d (t :: ts) script) :
    ∃ a x s d₁ ss, t :: ts = a ++ x ∧ Item d a s d₁ ∧ Script.Derived d₁ x ss := by
  generalize htokens : t :: ts = tokens at h
  cases h with
  | nil => cases htokens
  | statement hs hss => exact ⟨_, _, _, _, _, rfl, .statement hs, hss⟩
  | definition hstart hname hall hnodup hbody hstop hss =>
    exact ⟨_, _, _, _, _, by simp, .definition hstart hname hall hnodup hbody hstop, hss⟩

theorem Item.readTop {limit : Nat} (h : Item d us s d₁) (hn : s.nesting ≤ limit)
    (rest : List Token) : Stmt.readTop limit d (us ++ rest) = (.ok (s, rest), d₁) := by
  cases h with
  | statement hs => rw [readTop_of_derived hs, Stmt.read_complete d limit us s rest hs hn]
  | definition hstart hname hall hnodup hbody hstop =>
    simpa using readTop_of_definition hstart hname hall hnodup hbody hstop hn rest

theorem item_of_readTop {limit : Nat} (hd : d.Unreserved)
    (h : Stmt.readTop limit d ts = (.ok (s, rest), d₁)) :
    ∃ used, ts = used ++ rest ∧ Item d used s d₁ ∧ d₁.Unreserved := by
  cases ts with
  | nil => cases h
  | cons t ts =>
    rw [Stmt.readTop] at h
    split at h
    · rename_i hto
      obtain ⟨name, stop, ps, bs, body, rfl, rfl, rfl, hname, hall, hnodup, hbody, hstop, -⟩ :=
        readDefinition_sound hd h
      rw [Expr.eq_ofWord hto.1]
      exact ⟨_, by simp, .definition hto.2 hname hall hnodup hbody hstop, hd.cons hname _⟩
    · obtain ⟨hs, rfl⟩ := Prod.mk.inj h
      obtain ⟨used, hused, hderived, -⟩ := Stmt.read_sound hd limit _ _ _ hs
      exact ⟨used, hused, .statement hderived, hd⟩

/-- No statement of the top level is the beginning of another one, and each leaves its own
declarations. -/
theorem Item.definite {a a' x y : List Token} {s' : Stmt} {d₂ : Declarations} (h : Item d a s d₁)
    (h' : Item d a' s' d₂) (heq : a ++ x = a' ++ y) : a = a' ∧ d₁ = d₂ := by
  have hread := h.readTop (Nat.le_max_left s.nesting s'.nesting) x
  rw [heq, h'.readTop (Nat.le_max_right s.nesting s'.nesting) y] at hread
  cases hread
  exact ⟨List.append_cancel_right heq, rfl⟩

/-- Statements of the top level. -/
def phrase (d : Declarations) : Phrase := fun us => ∃ s d₁, Item d us s d₁

theorem not_phrase_nil : ¬ phrase d [] := by
  rintro ⟨s, d₁, h⟩
  exact h.ne_nil rfl

theorem phrase_of_statement (h : Stmt.phrase d us) : phrase d us := by
  obtain ⟨s, hs⟩ := h
  exact ⟨s, d, .statement hs⟩

theorem phrase_definition {start : String} (hstart : Keyword.of? start = some .procedureStart)
    (a : List Token) : phrase d (.ofWord start :: a) ↔ definition d a := by
  constructor
  · rintro ⟨s, d₁, h⟩
    generalize htokens : Token.ofWord start :: a = tokens at h
    cases h with
    | statement hs =>
      rw [← htokens] at hs
      obtain ⟨-, ⟨v, hw⟩ | hw | hw | ⟨hw, -⟩⟩ := hs.starts
      all_goals
        rw [Token.text_ofWord, hstart] at hw
        cases hw
    | @definition _ stop name ps bs body _ hname hall hnodup hbody hstop =>
      obtain ⟨-, rfl⟩ := List.cons.inj htokens
      exact ⟨name, _, rfl, hname, ps, _, rfl, hall, hnodup, bs, .ofWord stop, body, rfl, hbody,
        by simp [isEnd, hstop]⟩
  · rintro ⟨name, c, rfl, hname, ps, _, rfl, hall, hnodup, bs, stop, body, rfl, hbody, hend⟩
    obtain ⟨hword, hstop⟩ := eq_ofWord_of_isEnd hend
    rw [hword]
    exact ⟨_, _, .definition hstart hname hall hnodup hbody hstop⟩

/-- A statement of the top level that starts with no `TO` is one that may stand in a block. -/
theorem statement_of_phrase (ht : ¬ (t.kind = .word ∧ Keyword.of? t.text = some .procedureStart))
    (a : List Token) (h : phrase d (t :: a)) : Stmt.phrase d (t :: a) := by
  obtain ⟨s, d₁, h⟩ := h
  generalize htokens : t :: a = tokens at h
  cases h with
  | statement hs => exact ⟨s, hs⟩
  | definition hstart _ _ _ _ _ =>
    obtain ⟨rfl, -⟩ := List.cons.inj htokens
    exact absurd ⟨rfl, hstart⟩ ht

theorem readTop_blames (hd : d.Unreserved) (limit : Nat) (hbalanced : Balanced (t :: ts)) :
    Blames ((phrase d).Stuck (t :: ts)) (Stmt.readTop limit d (t :: ts)).1 := by
  rw [Stmt.readTop]
  split
  · rename_i hto
    have hword : Balanced [t] := .plain (by simp [Token.isBracket, hto.1]) .nil
    have hrest : Balanced ts := hword.of_append hbalanced
    rw [Expr.eq_ofWord hto.1]
    exact (readDefinition_blames hd limit hrest).imp fun _ h =>
      h.cons (phrase_definition hto.2) not_phrase_nil
  · rename_i hto
    have hblames := Stmt.read_blames hd limit t ts hbalanced.not_close hbalanced.blocksClosed
    exact hblames.imp fun _ h =>
      h.widen (fun _ => phrase_of_statement) (statement_of_phrase hto) not_phrase_nil

/-- What stands before `rest` is the beginning of a script, and with the next token it is not. -/
def Stuck (d : Declarations) (ts rest : List Token) : Prop :=
  ∃ used, ts = used ++ rest ∧ (∃ more script, Script.Derived d (used ++ more) script) ∧
    ∀ t tail, rest = t :: tail → ∀ more script, ¬ Script.Derived d (used ++ t :: more) script

/-- A script is stuck where its first statement is. -/
theorem Stuck.first (h : (phrase d).Stuck ts rest) : Script.Stuck d ts rest := by
  obtain ⟨used, rfl, ⟨more, s, d₁, hmore⟩, hnot⟩ := h
  refine ⟨used, rfl, ⟨more, [s], hmore.script⟩, ?_⟩
  intro t tail htail more' script hscript'
  obtain ⟨u, us, hu⟩ := List.exists_cons_of_ne_nil (l := used ++ t :: more') (by simp)
  rw [hu] at hscript'
  obtain ⟨a, x, s, d₁, -, heq, ha, -⟩ := item_of_derived hscript'
  refine hnot t tail htail more' a x ?_ ⟨s, d₁, ha⟩
  rw [← heq, ← hu, List.append_assoc, List.singleton_append]

/-- Behind its first statement a script is stuck where the rest of it is. -/
theorem Stuck.second (hitem : Item d us s d₁) (h : Script.Stuck d₁ ts rest) :
    Script.Stuck d (us ++ ts) rest := by
  obtain ⟨used, rfl, ⟨more, script, hmore⟩, hnot⟩ := h
  refine ⟨us ++ used, by simp, ⟨more, s :: script, ?_⟩, ?_⟩
  · rw [List.append_assoc]
    exact hitem.derived hmore
  · intro t tail htail more' script' hscript'
    obtain ⟨u, us', hu⟩ := List.exists_cons_of_ne_nil (l := us ++ used ++ t :: more') (by simp)
    rw [hu] at hscript'
    obtain ⟨a, x, s', d₂, ss, heq, ha, hx⟩ := item_of_derived hscript'
    rw [← hu, List.append_assoc] at heq
    obtain ⟨rfl, rfl⟩ := hitem.definite ha heq
    rw [← List.append_cancel_left heq] at hx
    exact hnot t tail htail more' ss hx

end Script

/-- The whole of a list of tokens is read, so its last statement cannot run past the end. -/
theorem topSequence_blames {d : Declarations} (hd : d.Unreserved) (limit : Nat) {n : Nat}
    {ts : List Token} (hn : n = ts.length) (hbalanced : Balanced ts) :
    Blames (Script.Stuck d ts) (topSequence limit d n ts).1 := by
  induction n using Nat.strongRecOn generalizing d ts with
  | ind n ih =>
    cases ts with
    | nil =>
      subst hn
      rw [List.length_nil, topSequence]
      exact .ok _
    | cons t ts =>
      subst hn
      rw [List.length_cons, topSequence]
      have hfirst := Script.readTop_blames hd limit hbalanced
      split
      · rename_i s d₁ hs
        rw [hs] at hfirst
        exact hfirst.error rfl fun _ => Script.Stuck.first
      · rename_i s rest₁ d₁ hs
        obtain ⟨used, hused, hitem, hd₁⟩ := Script.item_of_readTop hd hs
        have hlength := congrArg List.length hused
        have hpos := List.length_pos_iff.mpr hitem.ne_nil
        rw [List.length_cons, List.length_append] at hlength
        rw [hused] at hbalanced
        have hleft : ts.length - (ts.length - rest₁.length) = rest₁.length := by omega
        have hrest := ih _ (Nat.lt_succ_of_le (Nat.sub_le _ _)) hd₁ hleft
          (hitem.script.balanced.of_append hbalanced)
        simp only
        rw [if_pos (by omega)]
        split
        · rename_i hss
          rw [hss] at hrest
          rw [hused]
          exact hrest.error rfl fun _ => Script.Stuck.second hitem
        · exact .ok _

/-! ## Whole texts -/

deriving instance DecidableEq for SourceFailure

/-- The parser accepts a list of tokens, if its limit is high enough. -/
def Accepted (tokens : List Token) : Prop :=
  ∃ limit script, (parse limit tokens).1 = .ok script

theorem accepted_iff_derived {tokens : List Token} :
    Accepted tokens ↔ ∃ script, Script.Derived [] tokens script := by
  constructor
  · rintro ⟨limit, script, h⟩
    exact ⟨script, (derived_of_parse h).1⟩
  · rintro ⟨script, h⟩
    exact ⟨Stmt.allNesting script, script, by rw [parse_of_derived h (Nat.le_refl _)]⟩

/-- The index of an error is the number of tokens before those that the reader stopped at. -/
theorem locate_fault {total : Nat} {why : ParseFault} {rest : List Token} :
    Stop.locate total (.fault why rest) =
      .error ⟨why, rest.head?.map fun t => (total - rest.length, t)⟩ := by
  cases rest <;> rfl

/-- Where the brackets pair up, an error of the parser is a definition without `END`, or it is
about the tokens that the script is stuck at. -/
theorem stuck_of_parse {limit : Nat} {tokens : List Token} {e : ParseError}
    (hbalanced : Balanced tokens) (h : (parse limit tokens).1 = .error (.error e)) :
    (∃ name, e.fault = .missingEnd name) ∨ e.fault.isLocal = true ∧
      ∃ rest, Script.Stuck [] tokens rest ∧
        e.found = rest.head?.map fun t => (tokens.length - rest.length, t) := by
  have hblames := topSequence_blames .nil limit rfl hbalanced
  simp only [parse] at h
  split at h
  · rename_i s d hs
    rw [hs] at hblames
    cases s with
    | fault why rest =>
      rw [locate_fault] at h
      cases h
      obtain hname | ⟨hlocal, hstuck⟩ := hblames why rest rfl
      · exact .inl hname
      · exact .inr ⟨hlocal, rest, hstuck, rfl⟩
    | beyondEnd => cases h
    | tooDeep => cases h
  · cases h

/-- Whatever a text has wrong with it other than a definition without `END`, its parse points at
the first wrong token: what stands before it is the beginning of a list of tokens that is accepted,
and with it nothing is. If the error is at the end, more tokens are all that is missing. -/
theorem parse_points_at_first_wrong_token {limit : Nat} {text : String} {e : ParseError}
    (h : parseScript limit text = .error (.parse (.error e)))
    (hend : ∀ name, e.fault ≠ .missingEnd name) :
    ∃ ls, tokenize text = .ok ls ∧
      match e.found with
      | some (index, t) =>
        (tokensOf ls)[index]? = some t ∧
        (∃ more, Accepted ((tokensOf ls).take index ++ more)) ∧
        ∀ more, ¬ Accepted ((tokensOf ls).take (index + 1) ++ more)
      | none => ∃ more, Accepted (tokensOf ls ++ more) := by
  simp only [parseScript] at h
  split at h
  · cases h
  · rename_i ls hls
    split at h
    · rename_i f hf
      cases h
      obtain ⟨name, hname⟩ | ⟨-, rest, ⟨used, htokens, hviable, hnot⟩, hfound⟩ :=
        stuck_of_parse (balanced_of_tokenize hls) hf
      · exact absurd hname (hend name)
      · refine ⟨ls, hls, ?_⟩
        rw [hfound, htokens]
        obtain ⟨more, hmore⟩ := hviable
        cases rest with
        | nil => exact ⟨more, by simpa using accepted_iff_derived.mpr hmore⟩
        | cons t tail =>
          have hindex : (used ++ t :: tail).length - (t :: tail).length = used.length := by simp
          simp only [List.head?_cons, Option.map_some, hindex]
          refine ⟨by simp, ⟨more, ?_⟩, ?_⟩
          · rw [List.take_left]
            exact accepted_iff_derived.mpr hmore
          · intro more' haccepted
            obtain ⟨script, hscript⟩ := accepted_iff_derived.mp haccepted
            have htake : (used ++ t :: tail).take (used.length + 1) ++ more' =
                used ++ t :: more' := by simp [List.take_length_add_append]
            rw [htake] at hscript
            exact hnot t tail rfl more' script hscript
    · cases h

/-- A command without its operand, found out at the bracket behind it. -/
theorem parse_points_at_bracket :
    ∃ e ls, parseScript 9 "IF :x [ FORWARD ]" = .error (.parse (.error e)) ∧
      tokenize "IF :x [ FORWARD ]" = .ok ls ∧ e.found = some (4, .closing) ∧
      (tokensOf ls)[4]? = some .closing ∧
      (∃ more, Accepted ((tokensOf ls).take 4 ++ more)) ∧
      ∀ more, ¬ Accepted ((tokensOf ls).take 5 ++ more) := by
  have herror : (parseScript 9 "IF :x [ FORWARD ]").map (fun _ => ()) =
      .error (.parse (.error ⟨.expectedExpression, some (4, .closing)⟩)) := by decide +kernel
  cases h : parseScript 9 "IF :x [ FORWARD ]" with
  | error f =>
    rw [h] at herror
    cases herror
    obtain ⟨ls, hls, hfound⟩ := parse_points_at_first_wrong_token h (by simp)
    exact ⟨_, ls, rfl, hls, rfl, hfound⟩
  | ok script =>
    rw [h] at herror
    cases herror

end TurtleGraphics
