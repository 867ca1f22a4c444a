import Mathlib.Logic.Relation
import TurtleGraphics.Proofs.ReadBounds

/-!
# TurtleGraphics.Proofs.Advance

A parse always advances, and no statement that it reads leaves the range it is read for.

The ranges are the whole list of tokens, the blocks and the bodies of procedures, and what is left
of one of these behind the statements already read. Those that come up in a parse are followed from
one reader to the next: a range is opened by the end of a statement, by the bracket behind a
condition, or by the heading of a procedure.

* `TokenRange`                 : a range, with what the reader of its first statement is given.
* `TokenRange.Opens`, `Reached` : the ranges that come up in a parse.
* `TokenRange.Fenced`          : a range whose end has been found by looking ahead.
* `TokenRange.Fenced.advances` : a statement that is read stops inside its range.
* `TokenRange.fenced_of_reached` : every range that comes up is fenced.
* `parse_advances`             : the two together, with the ends that a parse can come to.

Nothing is asked of the tokens. Their brackets need not pair up, and a bracket in a body may have
its partner behind the `END`.
-/

namespace TurtleGraphics

/-- A range of tokens to be filled with statements: whether they are of the top level, how many
levels are left for them, which procedures have been declared, and from where to where the range
goes. -/
structure TokenRange where
  top : Bool
  limit : Nat
  declared : Declarations
  start : Nat
  stop : Nat
deriving Repr, DecidableEq

namespace TokenRange

/-- All tokens, before anything has been read. -/
def whole (limit : Nat) (tokens : List Token) : TokenRange :=
  ⟨true, limit, [], 0, tokens.length⟩

/-- What a reader that starts with the range is given: the tokens to the end of the script. -/
def ahead (tokens : List Token) (r : TokenRange) : List Token :=
  tokens.drop r.start

/-- The reading of the first statement of the range. -/
def readStatement (tokens : List Token) (r : TokenRange) :
    Except Stop (Stmt × List Token) × Declarations :=
  if r.top then Stmt.readTop r.limit r.declared (r.ahead tokens)
  else (Stmt.read r.declared r.limit (r.ahead tokens), r.declared)

/-- What is left of a range when its first statement has left `rest`. -/
def after (tokens : List Token) (r : TokenRange) (declared : Declarations) (rest : List Token) :
    TokenRange :=
  { r with declared := declared, start := tokens.length - rest.length }

/-- The next `n` of the tokens that are left, as a block or a body. -/
def inner (tokens : List Token) (limit : Nat) (declared : Declarations) (n : Nat)
    (rest : List Token) : TokenRange :=
  ⟨false, limit, declared, tokens.length - rest.length, tokens.length - rest.length + n⟩

/-- While there are tokens in a range its first statement is read. Then the rest of the range is
gone on with; before that the block or the body in the statement. -/
inductive Opens (tokens : List Token) : TokenRange → TokenRange → Prop where
  | next {r : TokenRange} {s : Stmt} {rest : List Token} {declared : Declarations} :
      r.start < r.stop → r.readStatement tokens = (.ok (s, rest), declared) →
      Opens tokens r (r.after tokens declared rest)
  | block {r : TokenRange} {t opener : Token} {ts rest : List Token} {limit n : Nat} {c : Expr} :
      r.start < r.stop → r.ahead tokens = t :: ts → t.kind = .word →
      Keyword.of? t.text = some .ifThen ∨ Keyword.of? t.text = some .whileDo →
      r.limit = limit + 1 → Expr.read limit ts = .ok (c, opener :: rest) →
      opener.kind = .openBlock → closingOffset? 0 rest = some n →
      Opens tokens r (inner tokens limit r.declared n rest)
  | body {r : TokenRange} {t : Token} {ts : List Token} {h : Heading} :
      r.start < r.stop → r.top = true → r.ahead tokens = t :: ts → t.kind = .word →
      Keyword.of? t.text = some .procedureStart → readHeading r.declared ts = .ok h →
      Opens tokens r
        (inner tokens r.limit ((h.name, h.parameters.length) :: r.declared) h.bodyLength h.rest)

/-- The range comes up in the parse of the tokens. -/
def Reached (limit : Nat) (tokens : List Token) : TokenRange → Prop :=
  Relation.ReflTransGen (Opens tokens) (whole limit tokens)

/-! ## Fenced ranges -/

/-- The range lies within the tokens, and its end is the end of the script, the bracket that closes
the block, or the first `END`. -/
structure Fenced (tokens : List Token) (r : TokenRange) : Prop where
  unreserved : r.declared.Unreserved
  start_le : r.start ≤ r.stop
  stop_le : r.stop ≤ tokens.length
  fence : Fence (r.stop - r.start) (r.ahead tokens)
  whole : r.top = true → r.stop = tokens.length

theorem fenced_whole (limit : Nat) (tokens : List Token) : (whole limit tokens).Fenced tokens :=
  ⟨.nil, Nat.zero_le _, Nat.le_refl _, .script tokens, fun _ => rfl⟩

/-- Where a list of tokens is left that stands at its end. -/
theorem drop_length_sub {tokens used rest : List Token} (h : tokens = used ++ rest) :
    tokens.drop (tokens.length - rest.length) = rest := by
  rw [h, List.length_append, Nat.add_sub_cancel, List.drop_left]

theorem fenced_inner {tokens used rest : List Token} {declared : Declarations} {n : Nat}
    (hd : declared.Unreserved) (htokens : tokens = used ++ rest) (hfence : Fence n rest)
    (limit : Nat) : (inner tokens limit declared n rest).Fenced tokens := by
  have hn := hfence.length_le
  have hlength : tokens.length = used.length + rest.length := by
    rw [htokens, List.length_append]
  refine ⟨hd, Nat.le_add_right _ _, ?_, ?_, by rintro ⟨⟩⟩
  · simp only [inner]
    omega
  · simp only [inner, ahead, Nat.add_sub_cancel_left, drop_length_sub htokens]
    exact hfence

variable {tokens : List Token} {r r' : TokenRange}

theorem take_append_ahead (tokens : List Token) (r : TokenRange) :
    tokens = tokens.take r.start ++ r.ahead tokens :=
  (List.take_append_drop _ _).symm

/-- A statement takes tokens from the front of its range, and what is behind it is fenced as the
range was. -/
theorem Fenced.readStatement_sound (h : r.Fenced tokens) {s : Stmt} {rest : List Token}
    {declared : Declarations} (hs : r.readStatement tokens = (.ok (s, rest), declared)) :
    ∃ used, r.ahead tokens = used ++ rest ∧ used ≠ [] ∧ used.length ≤ r.stop - r.start ∧
      declared.Unreserved ∧ Fence (r.stop - r.start - used.length) rest := by
  have hfence := h.fence
  unfold readStatement at hs
  split at hs
  · rename_i htop
    obtain ⟨used, hused, hne, -, hd, -⟩ := readTop_sound h.unreserved hs
    -- A definition has an `END` in it, but at the top level the end is that of the script.
    have hlength : r.stop - r.start = (used ++ rest).length := by
      rw [h.whole htop, ← hused, ahead, List.length_drop]
    rw [hlength, List.length_append]
    refine ⟨used, hused, hne, Nat.le_add_right _ _, hd, ?_⟩
    rw [Nat.add_sub_cancel_left]
    exact .script rest
  · obtain ⟨hread, rfl⟩ := Prod.mk.inj hs
    obtain ⟨used, hused, hd, -⟩ := Stmt.read_sound h.unreserved _ _ _ _ hread
    rw [hused] at hfence
    obtain ⟨hle, hrest⟩ := hfence.rest hd.balanced hd.not_isEnd
    exact ⟨used, hused, hd.ne_nil, hle, h.unreserved, hrest⟩

/-- A statement that is read stops behind its start and not behind the end of its range. -/
theorem Fenced.advances (h : r.Fenced tokens) {s : Stmt} {rest : List Token}
    {declared : Declarations} (hs : r.readStatement tokens = (.ok (s, rest), declared)) :
    r.start < (r.after tokens declared rest).start ∧
      (r.after tokens declared rest).start ≤ r.stop ∧
      rest = (r.after tokens declared rest).ahead tokens ∧
      (r.after tokens declared rest).Fenced tokens := by
  obtain ⟨used, hused, hne, hle, hd, hfence⟩ := h.readStatement_sound hs
  have hstart := h.start_le
  have hstop := h.stop_le
  have hpos : 0 < used.length := List.length_pos_iff.mpr hne
  have hlength : tokens.length - r.start = used.length + rest.length := by
    rw [← List.length_drop, ← List.length_append]
    exact congrArg List.length hused
  have hnext : (r.after tokens declared rest).start = r.start + used.length := by
    simp only [after]
    omega
  have hahead : (r.after tokens declared rest).ahead tokens = rest := by
    have htokens := take_append_ahead tokens r
    rw [hused, ← List.append_assoc] at htokens
    exact drop_length_sub htokens
  refine ⟨by omega, by omega, hahead.symm, hd, ?_, hstop, ?_, h.whole⟩
  · rw [hnext]
    simp only [after]
    omega
  · rw [hahead, hnext, Nat.sub_add_eq]
    exact hfence

/-- A fenced range opens fenced ones only. -/
theorem Fenced.of_opens (h : r.Fenced tokens) (hopens : Opens tokens r r') : r'.Fenced tokens := by
  cases hopens with
  | next _ hs => exact (h.advances hs).2.2.2
  | @block t opener ts rest limit n c _ hahead _ _ _ hc _ hn =>
    obtain ⟨cs, rfl, -⟩ := Expr.read_sound hc
    have htokens : tokens = (tokens.take r.start ++ t :: (cs ++ [opener])) ++ rest := by
      simpa [hahead] using take_append_ahead tokens r
    exact fenced_inner h.unreserved htokens (.block hn) limit
  | @body t ts g _ _ hahead _ _ hg =>
    obtain ⟨ps, -, -, -, rfl, -, -, hname, -⟩ := readHeading_sound hg
    have htokens : tokens = (tokens.take r.start ++ t :: .ofWord g.name :: ps) ++ g.rest := by
      simpa [hahead] using take_append_ahead tokens r
    exact fenced_inner (h.unreserved.cons hname _) htokens
      (.body (findIdx?_of_readHeading hg)) r.limit

theorem fenced_of_reached {limit : Nat} (h : Reached limit tokens r) : r.Fenced tokens := by
  induction h with
  | refl => exact fenced_whole limit tokens
  | tail _ hopens ih => exact ih.of_opens hopens

end TokenRange

/-! ## Parses -/

/-- A parse ends with a script or with a fault, which is not that a statement runs past the end of
its block, unless the limit is too low for the tokens. Every statement that it reads starts where
its range does and stops behind that, at the latest where the range stops. -/
theorem parse_advances (limit : Nat) (tokens : List Token) :
    ((∃ script, (parse limit tokens).1 = .ok script) ∨
      (∃ e, (parse limit tokens).1 = .error (.error e) ∧ e.fault ≠ .runsPastEnd) ∨
      ((parse limit tokens).1 = .error .tooDeep ∧ limit ≤ tokens.length)) ∧
    ∀ r, TokenRange.Reached limit tokens r →
      ∀ s rest declared, r.readStatement tokens = (.ok (s, rest), declared) →
        ∃ next, r.start < next ∧ next ≤ r.stop ∧ r.stop ≤ tokens.length ∧
          rest = tokens.drop next := by
  refine ⟨parse_proper limit tokens, fun r hr s rest declared hs => ?_⟩
  have hfenced := TokenRange.fenced_of_reached hr
  obtain ⟨hlt, hle, hrest, -⟩ := hfenced.advances hs
  exact ⟨_, hlt, hle, hfenced.stop_le, hrest⟩

/-- A procedure with a block that is closed behind its `END`. The command in the block is read and
stays inside; the parse fails at the `END`. -/
theorem parse_advances_crossing :
    let tokens : List Token := [.ofWord "TO", .ofWord "P", .ofWord "IF", .ofQuoted "TRUE",
      .opening, .ofWord "PENUP", .ofWord "END", .closing]
    let block : TokenRange := ⟨false, 2, [("P", 0)], 5, 7⟩
    (parse 3 tokens).1 = .error (.error ⟨.strayEnd, some (6, .ofWord "END")⟩) ∧
      TokenRange.Reached 3 tokens block ∧
      block.readStatement tokens =
        (.ok (.command .penUp [] none, [.ofWord "END", .closing]), [("P", 0)]) ∧
      ∃ next, 5 < next ∧ next ≤ 7 ∧ 7 ≤ tokens.length ∧
        [.ofWord "END", .closing] = tokens.drop next := by
  intro tokens block
  have hbody : TokenRange.Opens tokens (.whole 3 tokens) ⟨false, 3, [("P", 0)], 2, 6⟩ :=
    .body (h := ⟨"P", [], 4, tokens.drop 2⟩) (by decide) rfl rfl rfl rfl rfl
  have hcondition : Expr.read 2 (tokens.drop 3) =
      .ok (.boolean true, .opening :: tokens.drop 5) := rfl
  have hblock : TokenRange.Opens tokens ⟨false, 3, [("P", 0)], 2, 6⟩ block :=
    .block (show 2 < 6 by decide) rfl rfl (.inl rfl) rfl hcondition rfl (n := 2) rfl
  have hreached : TokenRange.Reached 3 tokens block := .tail (.single hbody) hblock
  have hread : block.readStatement tokens =
      (.ok (.command .penUp [] none, [.ofWord "END", .closing]), [("P", 0)]) := rfl
  refine ⟨?_, hreached, hread, (parse_advances 3 tokens).2 block hreached _ _ _ hread⟩
  with_unfolding_all rfl

end TurtleGraphics
