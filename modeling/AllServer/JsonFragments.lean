import AllServer.JsonMachine

/-!
# A JSON text, in one piece or in many

What the machine does with a character is told by `Mjson.Parsing.char`, and with a text by
`Mjson.Parsing.read`. The code reads a text as the machine does, whatever it is
(`Mjson.json_parse_fragment_eq`): it ends, and what is in memory then is what the machine has on its
stack. The machine does not know where a piece ends and the next one begins, so neither does the
code (`Mjson.json_parse_fragment_append`).
-/

namespace Mjson

open json_value_type LEX_VALUE json_status

namespace Parsing

/-- The next step, where none has returned a status. -/
def andThen (x : Parsing × Option json_status) (next : Parsing → Parsing × Option json_status) :
    Parsing × Option json_status :=
  match x with
  | (s, none) => next s
  | (s, some error) => (s, some error)

/-- What is done with a character; where it is left for the next token, `again` is. -/
def act (s : Parsing) (c : UInt8) (again : Parsing → Parsing × Option json_status) :
    Parsing × Option json_status :=
  match lexer.action s.lex_state c with
  | .skip lex_state => ({ s with lex_state }, none)
  | .start first lex_state => ({ s with lex_state, text := some first }, none)
  | .cat lex_state => ({ s with lex_state, text := s.text.map (· ++ [c]) }, none)
  | .token value skipped =>
    andThen ({ s with lex_state := 0 }.token value) (if skipped then (·, none) else again)
  | .invalid _ => s.token LEX_INVALID_CHARACTER

/-- **A character.** None is left for the next token twice. -/
def char (s : Parsing) (c : UInt8) : Parsing × Option json_status :=
  andThen s.settle fun s => s.act c fun s => andThen s.settle fun s => s.act c (·, none)

/-- The characters of a text, up to the first one with which the machine returns. -/
def run : List UInt8 → Parsing → Parsing × Option json_status
  | [], s => (s, none)
  | c :: text, s => andThen (s.char c) (run text)

/-- What is answered at the end of a text; a text without any token is no document. -/
def answer (s : Parsing) (text : List UInt8) : json_status :=
  if s.state = 99 then JSON_WAITING_FOR_EOF
  else if s.state = 0 ∧ text ≠ [] then JSON_MALFORMED_DOCUMENT
  else JSON_INCOMPLETE_DOCUMENT

/-- **A text.** -/
def read (s : Parsing) (text : List UInt8) : Parsing × json_status :=
  match run text s with
  | (s, some error) => (s, error)
  | (s, none) => (s, s.answer text)

@[simp] theorem andThen_none (s : Parsing) (next : Parsing → Parsing × Option json_status) :
    andThen (s, none) next = next s := rfl

theorem andThen_assoc (x : Parsing × Option json_status)
    (f g : Parsing → Parsing × Option json_status) :
    andThen (andThen x f) g = andThen x fun s => andThen (f s) g := by
  obtain ⟨s, _ | error⟩ := x <;> rfl

/-- One text after the other. -/
theorem run_append (text text' : List UInt8) (s : Parsing) :
    run (text ++ text') s = andThen (run text s) (run text') := by
  induction text generalizing s with
  | nil => rfl
  | cons c text ih =>
    rw [List.cons_append, run, run, andThen_assoc]
    exact congrArg (andThen (s.char c)) (funext ih)

theorem settle_eq {s : Parsing} (h : s.state ≠ 1 ∧ s.state ≠ 7) : s.settle = (s, none) := by
  unfold settle
  split
  · exact absurd ‹_› h.1
  · exact absurd ‹_› h.2
  · rfl

/-- What a token does, where nothing is returned: the parser is behind the start of the document,
and the lexer is where it was. -/
structure Moves (s : Parsing) (x : Parsing × Option json_status) : Prop where
  state : x.2 = none → x.1.state ≠ 0
  lex_state : x.1.lex_state = s.lex_state

theorem add_next {P : Parsing → Prop} (s : Parsing) (type : json_value_type) (text : Bool)
    {next : Parsing → Parsing} (h : ∀ s, P (next s)) (hnone : (s.add type text next).2 = none) :
    P (s.add type text next).1 := by
  unfold add at hnone ⊢
  split at hnone
  · exact absurd hnone (Option.some_ne_none _)
  · exact h _

theorem add_moves (s : Parsing) (type : json_value_type) (text : Bool) {next : Parsing → Parsing}
    (hstate : ∀ s, (next s).state ≠ 0) (hlex : ∀ s, (next s).lex_state = s.lex_state) :
    Moves s (s.add type text next) where
  state := add_next (P := fun s => s.state ≠ 0) s type text hstate
  lex_state := by
    unfold add
    split
    · rfl
    · exact hlex _

theorem close_moves (s : Parsing) : Moves s (s.close, none) := by
  unfold close
  split
  · split_ifs
    · exact ⟨fun _ => Nat.succ_ne_zero _, rfl⟩
    · exact ⟨fun _ => Nat.succ_ne_zero _, rfl⟩
  · exact ⟨fun _ => Nat.succ_ne_zero _, rfl⟩

theorem token_moves (s : Parsing) (value : LEX_VALUE) : Moves s (s.token value) := by
  unfold token
  split
  all_goals first
    | exact ⟨fun h => absurd h (Option.some_ne_none _), rfl⟩
    | exact ⟨fun _ => Nat.succ_ne_zero _, rfl⟩
    | exact close_moves s
    | exact add_moves s _ _ (fun _ => Nat.succ_ne_zero _) fun _ => rfl

theorem settle_moves (s : Parsing) (h : s.state ≠ 0) : Moves s s.settle := by
  unfold settle
  split
  · exact add_moves s _ _ (fun _ => Nat.succ_ne_zero _) fun _ => rfl
  · exact add_moves s _ _ (fun _ => Nat.succ_ne_zero _) fun _ => rfl
  · exact ⟨fun _ => h, rfl⟩

/-- Nothing is opened twice. -/
theorem settle_settled (s : Parsing) (h : s.settle.2 = none) :
    s.settle.1.state ≠ 1 ∧ s.settle.1.state ≠ 7 := by
  unfold settle at h ⊢
  split at h
  · have hstate := add_next (P := fun s => s.state = 2) s _ _ (fun _ => rfl) h
    omega
  · have hstate := add_next (P := fun s => s.state = 8) s _ _ (fun _ => rfl) h
    omega
  · exact ⟨‹_›, ‹_›⟩

end Parsing

/-! ## Tokens -/

/-- What ends a token: no character is left that does not begin one of its own. -/
def lexer.Action.ends (state : ℕ) (c : UInt8) : lexer.Action → Prop
  | .token value skipped => value ≠ LEX_MORE ∧ value ≠ LEX_INVALID_CHARACTER
    ∧ (skipped = false → state ≠ 0 ∧ ∃ value', lexer.action 0 c = .token value' true)
  | _ => True

theorem action_ends (state : ℕ) (c : UInt8) : (lexer.action state c).ends state c := by
  have hleft : ∀ state : ℕ, state ≠ 0 → (c = 93 ∨ c = 125 ∨ c = 44) →
      (lexer.Action.token LEX_NUMBER false).ends state c := by
    rintro state hstate (rfl | rfl | rfl)
    · exact ⟨by decide, by decide, fun _ => ⟨hstate, _, rfl⟩⟩
    · exact ⟨by decide, by decide, fun _ => ⟨hstate, _, rfl⟩⟩
    · exact ⟨by decide, by decide, fun _ => ⟨hstate, _, rfl⟩⟩
  have hskipped : ∀ {value : LEX_VALUE}, value ≠ LEX_MORE → value ≠ LEX_INVALID_CHARACTER →
      (lexer.Action.token value true).ends state c :=
    fun hmore hinvalid => ⟨hmore, hinvalid, fun h => absurd h (by decide)⟩
  unfold lexer.action lexer.letter lexer.numberEnd
  split
  all_goals
    repeat' refine iteInduction (fun hc => ?_) fun _ => ?_
    all_goals first
      | trivial
      | exact hskipped (by decide) (by decide)
      | exact hleft _ (by decide) hc

/-- **What a call of the lexer leaves.** -/
theorem lex_left {p : List UInt8} {state : ℕ} {text : Option (List UInt8)}
    (hmore : (lex p state text).1 ≠ LEX_MORE)
    (hinvalid : (lex p state text).1 ≠ LEX_INVALID_CHARACTER) :
    ∃ p', (lex p state text).2.1 = some p' ∧ p' <:+ p ∧ (p' = p → state ≠ 0) := by
  induction p generalizing state text with
  | nil => exact absurd rfl hmore
  | cons c p ih =>
    have hlater : ∀ {state' text'}, (lex p state' text').1 ≠ LEX_MORE →
        (lex p state' text').1 ≠ LEX_INVALID_CHARACTER → ∃ p', (lex p state' text').2.1 = some p'
          ∧ p' <:+ c :: p ∧ (p' = c :: p → state ≠ 0) := fun hmore hinvalid => by
      obtain ⟨p', hp', hsuffix, -⟩ := ih hmore hinvalid
      refine ⟨p', hp', hsuffix.trans (List.suffix_cons c p), fun heq => ?_⟩
      have hlength := hsuffix.length_le
      rw [heq, List.length_cons] at hlength
      exact absurd hlength (Nat.not_succ_le_self _)
    have hends := action_ends state c
    rw [lex] at hmore hinvalid ⊢
    cases haction : lexer.action state c with
    | skip state' =>
      rw [haction] at hmore hinvalid
      exact hlater hmore hinvalid
    | start first state' =>
      rw [haction] at hmore hinvalid
      exact hlater hmore hinvalid
    | cat state' =>
      rw [haction] at hmore hinvalid
      exact hlater hmore hinvalid
    | token value skipped =>
      rw [haction] at hends
      cases skipped with
      | true =>
        exact ⟨p, rfl, List.suffix_cons c p, fun heq => absurd heq (List.cons_ne_self c p).symm⟩
      | false => exact ⟨c :: p, rfl, List.suffix_refl _, fun _ => (hends.2.2 rfl).1⟩
    | invalid skipped =>
      rw [haction] at hinvalid
      exact absurd rfl hinvalid

namespace Parsing

/-- Opening a value does not move the lexer. -/
theorem settle_lex_state (s : Parsing) : s.settle.1.lex_state = s.lex_state := by
  by_cases h : s.state = 0
  · rw [settle_eq ⟨h ▸ by decide, h ▸ by decide⟩]
  · exact (settle_moves s h).lex_state

/-- A character that is left is read as the first one of the next token. -/
theorem again_eq {s : Parsing} {c : UInt8} {value : LEX_VALUE}
    (haction : lexer.action 0 c = .token value true) (hlex : s.lex_state = 0) :
    (andThen s.settle fun s => s.act c (·, none)) = s.char c := by
  have hlex' := (settle_lex_state s).trans hlex
  unfold char
  cases hsettle : s.settle with
  | mk s' error =>
    rw [hsettle] at hlex'
    cases error with
    | some error => rfl
    | none =>
      rw [andThen_none, andThen_none]
      unfold act
      rw [hlex', haction]
      rfl

/-- A text without the end of a token. -/
theorem run_lex_more {s : Parsing} (hs : s.state ≠ 1 ∧ s.state ≠ 7) {p : List UInt8}
    (hmore : (lex p s.lex_state s.text).1 = LEX_MORE) :
    run p s = ({ s with lex_state := (lex p s.lex_state s.text).2.2.1
                        text := (lex p s.lex_state s.text).2.2.2 }, none) := by
  induction p generalizing s with
  | nil => rfl
  | cons c p ih =>
    have hends := action_ends s.lex_state c
    rw [lex] at hmore ⊢
    rw [run, char, settle_eq hs, andThen_none]
    unfold act
    cases haction : lexer.action s.lex_state c with
    | skip lex_state =>
      rw [haction] at hmore
      exact ih (s := { s with lex_state }) hs hmore
    | start first lex_state =>
      rw [haction] at hmore
      exact ih (s := { s with lex_state, text := some first }) hs hmore
    | cat lex_state =>
      rw [haction] at hmore
      exact ih (s := { s with lex_state, text := s.text.map (· ++ [c]) }) hs hmore
    | token value skipped =>
      rw [haction] at hmore hends
      exact absurd hmore hends.1
    | invalid skipped =>
      rw [haction] at hmore
      cases hmore

theorem token_invalid_ne (s : Parsing) : (s.token LEX_INVALID_CHARACTER).2 ≠ none := by
  unfold token
  split <;> first | exact Option.some_ne_none _ | contradiction

/-- Nothing goes on behind a character that begins no token. -/
theorem token_invalid (s : Parsing) (next : Parsing → Parsing × Option json_status) :
    andThen (s.token LEX_INVALID_CHARACTER) next = s.token LEX_INVALID_CHARACTER := by
  have hne := token_invalid_ne s
  unfold andThen
  split
  next heq => exact absurd (congrArg Prod.snd heq) hne
  next heq => exact heq.symm

/-- **A text is read token by token.** -/
theorem run_lex {s : Parsing} (hs : s.state ≠ 1 ∧ s.state ≠ 7) {p : List UInt8}
    (hmore : (lex p s.lex_state s.text).1 ≠ LEX_MORE) :
    run p s = andThen (token { s with lex_state := (lex p s.lex_state s.text).2.2.1
                                      text := (lex p s.lex_state s.text).2.2.2 }
        (lex p s.lex_state s.text).1) (run ((lex p s.lex_state s.text).2.1.getD [])) := by
  induction p generalizing s with
  | nil => exact absurd rfl hmore
  | cons c p ih =>
    have hends := action_ends s.lex_state c
    rw [lex] at hmore ⊢
    rw [run, char, settle_eq hs, andThen_none]
    unfold act
    cases haction : lexer.action s.lex_state c with
    | skip lex_state =>
      rw [haction] at hmore
      exact ih (s := { s with lex_state }) hs hmore
    | start first lex_state =>
      rw [haction] at hmore
      exact ih (s := { s with lex_state, text := some first }) hs hmore
    | cat lex_state =>
      rw [haction] at hmore
      exact ih (s := { s with lex_state, text := s.text.map (· ++ [c]) }) hs hmore
    | token value skipped =>
      rw [haction] at hends
      obtain ⟨-, -, hleft⟩ := hends
      have hmoves := token_moves { s with lex_state := 0 } value
      dsimp only
      rw [andThen_assoc]
      cases htoken : { s with lex_state := 0 }.token value with
      | mk s' error =>
        rw [htoken] at hmoves
        cases error with
        | some error => rfl
        | none =>
          cases skipped with
          | true => rfl
          | false =>
            -- the character is the first one of the text that is left
            obtain ⟨-, value', haction'⟩ := hleft rfl
            exact congrArg (andThen · (run p)) (again_eq haction' hmoves.lex_state)
    | invalid skipped => exact (token_invalid s _).trans (token_invalid s _).symm

/-- What is opened first is the same at the next turn. -/
theorem run_settle (s : Parsing) {p : List UInt8} (hp : p ≠ []) :
    run p s = andThen s.settle (run p) := by
  obtain ⟨c, p, rfl⟩ := List.exists_cons_of_ne_nil hp
  have hsettled := settle_settled s
  rw [run, char]
  cases hsettle : s.settle with
  | mk s' error =>
    cases error with
    | some error => rfl
    | none =>
      rw [hsettle] at hsettled
      rw [andThen_none, andThen_none, run, char, settle_eq (hsettled rfl), andThen_none]

/-- Behind the start of a document, the parser does not come back to it. -/
theorem act_state_ne_zero {s : Parsing} (c : UInt8)
    {again : Parsing → Parsing × Option json_status} (h : s.state ≠ 0)
    (hagain : ∀ s, s.state ≠ 0 → (again s).2 = none → (again s).1.state ≠ 0)
    (hnone : (s.act c again).2 = none) : (s.act c again).1.state ≠ 0 := by
  unfold act at hnone ⊢
  cases haction : lexer.action s.lex_state c with
  | skip lex_state => exact h
  | start first lex_state => exact h
  | cat lex_state => exact h
  | token value skipped =>
    rw [haction] at hnone
    dsimp only at hnone ⊢
    have hmoves := token_moves { s with lex_state := 0 } value
    cases htoken : { s with lex_state := 0 }.token value with
    | mk s' error =>
      rw [htoken] at hmoves hnone
      cases error with
      | some error => exact absurd hnone (Option.some_ne_none _)
      | none =>
        cases skipped with
        | true => exact hmoves.state rfl
        | false => exact hagain s' (hmoves.state rfl) hnone
  | invalid skipped =>
    rw [haction] at hnone
    exact (token_moves s _).state hnone

theorem andThen_state_ne_zero {x : Parsing × Option json_status}
    {next : Parsing → Parsing × Option json_status} (hx : x.2 = none → x.1.state ≠ 0)
    (hnext : ∀ s, s.state ≠ 0 → (next s).2 = none → (next s).1.state ≠ 0)
    (hnone : (andThen x next).2 = none) : (andThen x next).1.state ≠ 0 := by
  obtain ⟨s, _ | error⟩ := x
  · exact hnext s (hx rfl) hnone
  · exact absurd hnone (Option.some_ne_none _)

theorem run_state_ne_zero {s : Parsing} (p : List UInt8) (h : s.state ≠ 0)
    (hnone : (run p s).2 = none) : (run p s).1.state ≠ 0 := by
  induction p generalizing s with
  | nil => exact h
  | cons c p ih =>
    refine andThen_state_ne_zero (fun hchar => ?_) (fun s hs hrun => ih hs hrun) hnone
    refine andThen_state_ne_zero (settle_moves s h).state (fun s hs hact => ?_) hchar
    refine act_state_ne_zero c hs (fun s hs hagain => ?_) hact
    refine andThen_state_ne_zero (settle_moves s hs).state (fun s hs hact => ?_) hagain
    exact act_state_ne_zero c hs (fun s hs _ => hs) hact

/-- **Where two texts are read in the same way, the answer is the same.** -/
theorem read_congr {s s' : Parsing} {p p' : List UInt8} (hrun : run p s = run p' s')
    (hs : s'.state ≠ 0) : s.read p = s'.read p' := by
  have hstate := run_state_ne_zero p' hs
  unfold read
  rw [hrun]
  cases hrun' : run p' s' with
  | mk s₁ error =>
    cases error with
    | some error => rfl
    | none =>
      rw [hrun'] at hstate
      simp only [answer, hstate rfl, false_and]

/-- The end of a text. -/
theorem token_more {s : Parsing} (hwf : s.WF) (hs : s.state ≠ 1 ∧ s.state ≠ 7) {p : List UInt8}
    (hp : p ≠ []) : s.token LEX_MORE = (s, some (s.answer p)) := by
  obtain ⟨state, lex_state, text, stack, pool⟩ := s
  unfold WF at hwf
  unfold answer
  dsimp only at hwf hs ⊢
  split at hwf
  next =>
    rw [if_neg (by decide), if_pos ⟨rfl, hp⟩]
    rfl
  next => exact absurd rfl hs.1
  next => rfl
  next => rfl
  next => rfl
  next => rfl
  next => rfl
  next => exact absurd rfl hs.2
  next => rfl
  next => rfl
  next => rfl
  next => exact hwf.elim

end Parsing

/-! ## The loop -/

section Loop

variable {W : List Doc} {s : Parse} {a : Parsing} (fresh : ℕ → UInt8) (buffer : List UInt8)

/-- What is left to do, at most: a character is left once, and nothing is opened twice. -/
def Parsing.turnsLeft (a : Parsing) (p : List UInt8) : ℕ :=
  4 * p.length + (if a.lex_state = 0 then 0 else 2) + (if a.state = 1 ∨ a.state = 7 then 1 else 0)

variable (W) in
/-- **What the loop comes to**, in so many turns at most: the answer of the machine, and what is on
its stack. -/
def Reaches (s : Parse) (n : ℕ) (x : Parsing × json_status) : Prop :=
  ∃ k y s' error, Turns (json_parse_fragment.turn fresh buffer) k (s, none) [] y
    ∧ json_parse_fragment.turn fresh buffer y = .ok (.done (s', error), [])
    ∧ k ≤ n
    ∧ error.getD (if s'.info.state = 99 then JSON_WAITING_FOR_EOF else JSON_INCOMPLETE_DOCUMENT)
      = x.2
    ∧ Stands W s' x.1 ∧ (goesOn x.2 = true → Rel W s' x.1)

section Reaches

variable {c : UInt8} {p : List UInt8} {s₁ : Parse} {n : ℕ}

theorem turn_yield (hp : s.info.p = some (c :: p))
    (hstep : json_parse_fragment.step fresh buffer s = .ok (s₁, none)) :
    json_parse_fragment.turn fresh buffer (s, none) = .ok (.yield (s₁, none), []) := by
  unfold json_parse_fragment.turn
  simp only [hp]
  rw [hstep]
  rfl

theorem turn_done {error : json_status} (hp : s.info.p = some (c :: p))
    (hstep : json_parse_fragment.step fresh buffer s = .ok (s₁, some error)) :
    json_parse_fragment.turn fresh buffer (s, none) = .ok (.done (s₁, some error), []) := by
  unfold json_parse_fragment.turn
  simp only [hp]
  rw [hstep]
  rfl

/-- The text is at its end. -/
theorem reaches_nil (h : Rel W s a) (hp : s.info.p = some []) :
    Reaches W fresh buffer s n (a.read []) := by
  refine ⟨0, (s, none), s, none, Turns.refl _, ?_, Nat.zero_le _, ?_, h.toStands, fun _ => h⟩
  · unfold json_parse_fragment.turn
    simp only [hp]
  · unfold Parsing.read Parsing.run Parsing.answer
    simp [h.state]

/-- A turn that returns. -/
theorem reaches_done {error : json_status} {b : Parsing} (hp : s.info.p = some (c :: p))
    (hstep : json_parse_fragment.step fresh buffer s = .ok (s₁, some error))
    (hout : RelOut W (s₁, some error) (b, some error)) :
    Reaches W fresh buffer s n (b, error) := by
  refine ⟨0, _, s₁, some error, Turns.refl _, turn_done fresh buffer hp hstep, Nat.zero_le _, rfl, hout.stands,
    fun hgoes => hout.rel fun error' h => ?_⟩
  obtain rfl := Option.some.inj h
  exact hgoes

/-- **A turn, and then the others.** -/
theorem reaches_step {x : Parse × Option json_status} {y : Parsing × Option json_status}
    {p₁ : List UInt8} (hp : s.info.p = some (c :: p))
    (hstep : json_parse_fragment.step fresh buffer s = .ok x) (hout : RelOut W x y)
    (hrun : Parsing.run (c :: p) a = Parsing.andThen y (Parsing.run p₁))
    (hgoes : y.2 = none → Rel W x.1 y.1 →
      y.1.state ≠ 0 ∧ ∃ m < n, Reaches W fresh buffer x.1 m (y.1.read p₁)) :
    Reaches W fresh buffer s n (a.read (c :: p)) := by
  obtain ⟨s₁, error⟩ := x
  obtain ⟨a₁, error'⟩ := y
  obtain rfl : error = error' := hout.status
  cases error with
  | none =>
    obtain ⟨hstate, m, hless, k, y, s', error, hturns, hdone, hk, hanswer, hstands, hrel⟩ :=
      hgoes rfl (hout.rel fun _ h => by cases h)
    rw [Parsing.read_congr hrun hstate]
    exact ⟨k + 1, y, s', error, Turns.step (turn_yield fresh buffer hp hstep) hturns, hdone, by omega, hanswer,
      hstands, hrel⟩
  | some error =>
    have hread : a.read (c :: p) = (a₁, error) := by
      unfold Parsing.read
      rw [hrun]
      rfl
    rw [hread]
    exact reaches_done fresh buffer hp hstep hout

/-- An object or an array that is opened needs a turn, and no character. -/
theorem turnsLeft_settle (hstate : a.state = 1 ∨ a.state = 7) (hnone : a.settle.2 = none)
    (p : List UInt8) : a.settle.1.turnsLeft p < a.turnsLeft p := by
  have hmoves := Parsing.settle_moves a (by omega)
  rw [Parsing.turnsLeft, Parsing.turnsLeft, if_pos hstate,
    if_neg (not_or.mpr (Parsing.settle_settled a hnone)), hmoves.lex_state]
  exact Nat.lt_succ_self _

/-- A token needs a turn, and its characters. -/
theorem turnsLeft_token {b : Parsing} {p₁ : List UInt8} (hlex : b.lex_state = 0)
    (hstate : ¬(a.state = 1 ∨ a.state = 7)) (hsuffix : p₁ <:+ c :: p)
    (hsame : p₁ = c :: p → a.lex_state ≠ 0) : b.turnsLeft p₁ < a.turnsLeft (c :: p) := by
  rw [Parsing.turnsLeft, Parsing.turnsLeft, if_pos hlex, if_neg hstate]
  have hlength := hsuffix.length_le
  by_cases heq : p₁ = c :: p
  · rw [if_neg (hsame heq), heq]
    split_ifs <;> omega
  · have hne := mt hsuffix.eq_of_length heq
    split_ifs <;> omega

/-- The text ends inside of a token. -/
theorem reaches_more (h : Rel W s a) (hp : s.info.p = some (c :: p)) (hfree : NulFree (c :: p))
    (hstate : a.state ≠ 1 ∧ a.state ≠ 7)
    (hmore : (lex (c :: p) a.lex_state a.text).1 = LEX_MORE) :
    Reaches W fresh buffer s n (a.read (c :: p)) := by
  obtain ⟨⟨s₁, error⟩, hstep, hout, -⟩ := step_token fresh buffer h hp hfree hstate
  have hread : a.read (c :: p) = ({ a with
      lex_state := (lex (c :: p) a.lex_state a.text).2.2.1
      text := (lex (c :: p) a.lex_state a.text).2.2.2 }, a.answer (c :: p)) := by
    unfold Parsing.read
    rw [Parsing.run_lex_more hstate hmore]
    rfl
  have htoken := Parsing.token_more (s := { a with
      lex_state := (lex (c :: p) a.lex_state a.text).2.2.1
      text := (lex (c :: p) a.lex_state a.text).2.2.2 }) h.wf hstate (List.cons_ne_nil c p)
  rw [hmore, htoken] at hout
  obtain rfl : error = some (a.answer (c :: p)) := hout.status
  rw [hread]
  exact reaches_done fresh buffer hp hstep hout

end Reaches

/-- **The loop reads what is left of the text as the machine does.** -/
theorem turns_read {p : List UInt8} (h : Rel W s a) (hp : s.info.p = some p) (hfree : NulFree p) :
    Reaches W fresh buffer s (a.turnsLeft p) (a.read p) := by
  induction hn : a.turnsLeft p using Nat.strong_induction_on generalizing s a p with
  | _ n ih =>
  cases p with
  | nil => exact reaches_nil fresh buffer h hp
  | cons c p =>
    by_cases hstate : a.state = 1 ∨ a.state = 7
    · -- nothing is read
      obtain ⟨x, hstep, hout, hp₁⟩ := step_settle fresh buffer h hstate
      have hmoves := Parsing.settle_moves a (by omega)
      refine reaches_step fresh buffer hp hstep hout (Parsing.run_settle a (List.cons_ne_nil c p))
        fun hnone hrel => ⟨hmoves.state hnone, _, ?_, ih _ ?_ hrel (hp₁.trans hp) hfree rfl⟩
      · exact hn ▸ turnsLeft_settle hstate hnone (c :: p)
      · exact hn ▸ turnsLeft_settle hstate hnone (c :: p)
    · have hstate' := not_or.mp hstate
      by_cases hmore : (lex (c :: p) a.lex_state a.text).1 = LEX_MORE
      · exact reaches_more fresh buffer h hp hfree hstate' hmore
      -- a token is read
      obtain ⟨x, hstep, hout, hp₁⟩ := step_token fresh buffer h hp hfree hstate'
      refine reaches_step fresh buffer hp hstep hout (Parsing.run_lex hstate' hmore) fun hnone hrel => ?_
      have hinvalid : (lex (c :: p) a.lex_state a.text).1 ≠ LEX_INVALID_CHARACTER := fun heq => by
        rw [heq] at hnone
        exact Parsing.token_invalid_ne _ hnone
      have hmoves := Parsing.token_moves { a with
        lex_state := (lex (c :: p) a.lex_state a.text).2.2.1
        text := (lex (c :: p) a.lex_state a.text).2.2.2 } (lex (c :: p) a.lex_state a.text).1
      have hlex := hmoves.lex_state.trans (lex_state_eq_zero _ _ _ hmore hinvalid)
      obtain ⟨p₁, hp', hsuffix, hsame⟩ := lex_left hmore hinvalid
      rw [hp', Option.getD_some]
      have hless := hn ▸ turnsLeft_token hlex hstate hsuffix hsame
      exact ⟨hmoves.state hnone, _, hless, ih _ hless hrel (hp₁.trans hp')
        (fun hmem => hfree (hsuffix.mem hmem)) rfl⟩

/-- **The code reads a text as the machine does**, and what is in memory is on its stack. -/
theorem json_parse_fragment_eq (h : Rel W s a) {text : List UInt8} {fuel : ℕ}
    (hfuel : 4 * (cstr text).length + 3 < fuel) :
    ∃ s', json_parse_fragment fresh s text fuel = .ok (s', (a.read (cstr text)).2)
      ∧ Stands W s' (a.read (cstr text)).1
      ∧ (goesOn (a.read (cstr text)).2 = true → Rel W s' (a.read (cstr text)).1) := by
  have h' : Rel W { s with info := { s.info with p := some (cstr text) } } a :=
    ⟨⟨h.cursor, h.pool, h.nodup, h.free, h.holds⟩, ⟨h.lex_state, h.text, h.hasText⟩, h.state, h.wf⟩
  obtain ⟨k, y, s', error, hturns, hdone, hk, hanswer, hstands, hrel⟩ :=
    turns_read fresh (cstr text) h' rfl (nulFree_cstr text)
  have hloop := hturns.loop_done hdone (n := fuel) (by
    unfold Parsing.turnsLeft at hk
    split_ifs at hk <;> omega)
  unfold json_parse_fragment
  dsimp only at hloop ⊢
  rw [hloop, ok_bind]
  rw [← hanswer] at hrel ⊢
  cases error with
  | some error => exact ⟨s', rfl, hstands, hrel⟩
  | none =>
    refine ⟨_, rfl, ⟨hstands.cursor, hstands.pool, hstands.nodup, hstands.free, hstands.holds⟩,
      fun hgoes => ?_⟩
    have h₁ := hrel hgoes
    exact ⟨⟨hstands.cursor, hstands.pool, hstands.nodup, hstands.free, hstands.holds⟩,
      ⟨h₁.lex_state, h₁.text, h₁.hasText⟩, h₁.state, h₁.wf⟩

end Loop

/-! ## Many pieces -/

namespace Parsing

/-- In the middle of a text, nothing is answered with which the machine could go on, or which is no
error. -/
def Stops (x : Parsing × Option json_status) : Prop :=
  ∀ error, x.2 = some error → goesOn error = false ∧ error ≠ JSON_OK

theorem stops_none (s : Parsing) : Stops (s, none) := fun _ h => nomatch h

theorem Stops.andThen {x : Parsing × Option json_status}
    {next : Parsing → Parsing × Option json_status} (hx : Stops x) (hnext : ∀ s, Stops (next s)) :
    Stops (Parsing.andThen x next) := by
  obtain ⟨s, _ | error⟩ := x
  · exact hnext s
  · exact hx

theorem add_stops (s : Parsing) (type : json_value_type) (text : Bool) (next : Parsing → Parsing) :
    Stops (s.add type text next) := by
  unfold add
  split
  · exact fun error h => Option.some.inj h ▸ ⟨rfl, by decide⟩
  · exact stops_none _

theorem settle_stops (s : Parsing) : Stops s.settle := by
  unfold settle
  split
  · exact add_stops _ _ _ _
  · exact add_stops _ _ _ _
  · exact stops_none s

theorem token_stops (s : Parsing) {value : LEX_VALUE} (hvalue : value ≠ LEX_MORE) :
    Stops (s.token value) := by
  unfold token
  split
  all_goals first
    | exact absurd rfl hvalue
    | exact stops_none _
    | exact add_stops _ _ _ _
    | exact fun error h => Option.some.inj h ▸ ⟨rfl, by decide⟩

theorem act_stops (s : Parsing) (c : UInt8) {again : Parsing → Parsing × Option json_status}
    (hagain : ∀ s, Stops (again s)) : Stops (s.act c again) := by
  have hends := action_ends s.lex_state c
  unfold act
  cases haction : lexer.action s.lex_state c with
  | skip lex_state => exact stops_none _
  | start first lex_state => exact stops_none _
  | cat lex_state => exact stops_none _
  | token value skipped =>
    rw [haction] at hends
    refine Stops.andThen (token_stops _ hends.1) fun s => ?_
    cases skipped with
    | true => exact stops_none s
    | false => exact hagain s
  | invalid skipped => exact token_stops s (by decide)

theorem run_stops (p : List UInt8) (s : Parsing) : Stops (run p s) := by
  induction p generalizing s with
  | nil => exact stops_none s
  | cons c p ih =>
    refine Stops.andThen (Stops.andThen (settle_stops s) fun s => act_stops s c fun s => ?_) ih
    exact Stops.andThen (settle_stops s) fun s => act_stops s c stops_none

/-- **A piece is read, and then the next one**, as if they were one. -/
theorem read_append {s : Parsing} {p q : List UInt8} (h : goesOn (s.read p).2 = true) :
    (s.read p).1.read q = s.read (p ++ q) := by
  have hrun := run_append p q s
  have hstops := run_stops p s
  unfold read at h ⊢
  cases hp : run p s with
  | mk s₁ error =>
    rw [hp] at h hrun hstops
    cases error with
    | some error => exact absurd (h.symm.trans (hstops error rfl).1) (by decide)
    | none =>
      dsimp only at h ⊢
      rw [hrun, andThen_none]
      by_cases hs : s₁.state = 0
      · -- nothing has been read
        have hp : p = [] := by
          by_contra hne
          rw [answer, if_neg (hs ▸ by decide), if_pos ⟨hs, hne⟩] at h
          cases h
        rw [hp, List.nil_append]
      · have hne := run_state_ne_zero q hs
        cases hq : run q s₁ with
        | mk s₂ error =>
          cases error with
          | some error => rfl
          | none =>
            rw [hq] at hne
            simp only [answer, hne rfl, false_and]

end Parsing

section Pieces

/-- Before anything has been read. -/
theorem rel_init {heap : JsonHeap} {W : List Doc} {pool : List ℕ} (h : Holds heap W)
    (hpool : pool.Nodup) (hfree : ∀ p ∈ pool, heap p = none) :
    Rel W ⟨heap, pool, json_jpi_init⟩ ⟨0, 0, none, [], pool⟩ :=
  ⟨⟨rfl, rfl, hpool, hfree, h⟩, ⟨rfl, Option.Rel.none, fun h => nomatch h⟩, rfl, rfl⟩

variable {W : List Doc} {s s₁ : Parse} {a : Parsing} {error : json_status}

/-- **A text may be cut anywhere**: where the first piece is answered with one of the statuses
with which the parser goes on, the second one is answered as the whole text is, and in memory is
the same document. A piece may end inside of a token, so that the state of the lexer and the text
that is begun are part of what is kept. The machine of the tokens reads the pieces like the whole
text, and the code keeps to the machine. -/
theorem json_parse_fragment_append (fresh : ℕ → UInt8) (h : Rel W s a) {p q : List UInt8}
    (hp : NulFree p) {fuel : ℕ} (hfuel : 4 * (p ++ q).length + 3 < fuel)
    (hrun : json_parse_fragment fresh s p fuel = .ok (s₁, error)) (herror : goesOn error = true) :
    ∃ s₂ s₃ error' b, json_parse_fragment fresh s₁ q fuel = .ok (s₂, error')
      ∧ json_parse_fragment fresh s (p ++ q) fuel = .ok (s₃, error')
      ∧ Stands W s₂ b ∧ Stands W s₃ b := by
  have hcstr : cstr (p ++ q) = p ++ cstr q :=
    List.takeWhile_append_of_pos fun c hc => decide_eq_true (ne_of_mem_of_not_mem hc hp)
  have hq : (cstr q).length ≤ q.length := (List.takeWhile_sublist _).length_le
  rw [List.length_append] at hfuel
  have hfuel₁ : 4 * (cstr p).length + 3 < fuel := by
    rw [cstr_of_nulFree hp]
    omega
  have hfuel₂ : 4 * (cstr q).length + 3 < fuel := by omega
  have hfuel₃ : 4 * (cstr (p ++ q)).length + 3 < fuel := by
    rw [hcstr, List.length_append]
    omega
  obtain ⟨s', hrun', -, hrel⟩ := json_parse_fragment_eq fresh h hfuel₁
  rw [cstr_of_nulFree hp] at hrun' hrel
  rw [hrun] at hrun'
  obtain ⟨rfl, rfl⟩ := Prod.mk.inj (Except.ok.inj hrun')
  obtain ⟨s₂, hrun₂, hstands₂, -⟩ := json_parse_fragment_eq fresh (hrel herror) hfuel₂
  obtain ⟨s₃, hrun₃, hstands₃, -⟩ := json_parse_fragment_eq fresh h hfuel₃
  rw [hcstr] at hrun₃ hstands₃
  rw [Parsing.read_append herror] at hrun₂ hstands₂
  exact ⟨s₂, s₃, _, _, hrun₂, hrun₃, hstands₂, hstands₃⟩

/-- An object that is cut in the middle of its label. -/
theorem json_parse_fragment_append_field : ∃ s₁ s₂ s₃ error b,
    json_parse_fragment (fun _ => 205) ⟨fun _ => none, [10, 20, 30], json_jpi_init⟩ [123, 34, 97] 40
      = .ok (s₁, JSON_INCOMPLETE_DOCUMENT)
    ∧ json_parse_fragment (fun _ => 205) s₁ [98, 34, 58, 55, 125] 40 = .ok (s₂, error)
    ∧ json_parse_fragment (fun _ => 205) ⟨fun _ => none, [10, 20, 30], json_jpi_init⟩
      ([123, 34, 97] ++ [98, 34, 58, 55, 125]) 40 = .ok (s₃, error)
    ∧ Stands [] s₂ b ∧ Stands [] s₃ b := by
  have hpool : [10, 20, 30].Nodup := by decide
  have hinit := rel_init Holds.empty hpool fun _ _ => rfl
  have hfuel : 4 * (cstr [123, 34, 97]).length + 3 < 40 := by decide
  obtain ⟨s₁, hrun, -, -⟩ := json_parse_fragment_eq (fun _ => 205) hinit hfuel
  obtain ⟨s₂, s₃, error, b, h⟩ :=
    json_parse_fragment_append (fun _ => 205) hinit (p := [123, 34, 97])
      (q := [98, 34, 58, 55, 125])
      (by decide) (by decide) hrun rfl
  exact ⟨s₁, s₂, s₃, error, b, hrun, h⟩

end Pieces

end Mjson
