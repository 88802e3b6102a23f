import BlockScript.Proofs.Expression.Grammar

/-! # Parsing by precedence

A parser reads tokens one by one, with a stack of operators and parentheses that are still open.
An operator first closes all that binds at least as strongly as its left operand has to. What the
grammar derives, the parser reads, so that no token list spells two expressions. -/

namespace BlockScript

/-- Something open, which waits for the operand on its right. -/
inductive Frame where
  | infixed (op : Operator) (left : Expression)
  | prefixed (op : PrefixOperator)
  /-- A condition and its question mark. -/
  | yes (condition : Expression)
  /-- A condition, the first branch and the colon. -/
  | no (condition first : Expression)
  | parenthesis
  | call (f : Expression) (arguments : List Expression)

/-- An operator with its last operand, and the level of the two. Parentheses and the first branch
of a choice end at a token of their own. -/
def Frame.close? : Frame → Expression → Option (Precedence × Expression)
  | infixed op left, e => some (op.level, .infixed op left e)
  | prefixed op, e => some (.unaryPrefix, .prefixed op e)
  | no condition first, e => some (.conditional, .choice condition first e)
  | _, _ => none

/-- Close operators from the top of the stack, as long as they bind at least as strongly as a
level. -/
def reduce (p : Precedence) : List Frame → Expression → List Frame × Expression
  | [], e => ([], e)
  | frame :: stack, e =>
      match frame.close? e with
      | none => (frame :: stack, e)
      | some (level, whole) =>
          if level.rank ≤ p.rank then reduce p stack whole else (frame :: stack, e)

/-- What the parser reads next, and what it has read. -/
inductive Reading where
  | operand (stack : List Frame)
  | operator (stack : List Frame) (e : Expression)
  /-- The name behind a point. -/
  | member (stack : List Frame) (e : Expression)

namespace Token

/-- The level that a token needs of all to its left, as far as it is open. -/
def level? : Token → Option Precedence
  | point | opening => some .unaryPostfix
  | operator sign => (Operator.ofSign? sign).map Operator.level
  | question => some Precedence.conditional.tighter
  | closing | comma | colon => some .anything
  | numeral _ | word _ => none

/-- Go on behind an expression. -/
def shift : Token → List Frame × Expression → Option Reading
  | point, (stack, e) => some (.member stack e)
  | opening, (stack, e) => some (.operand (.call e [] :: stack))
  | operator sign, (stack, e) =>
      (Operator.ofSign? sign).map fun op => .operand (.infixed op e :: stack)
  | question, (stack, e) => some (.operand (.yes e :: stack))
  | colon, (.yes condition :: stack, e) => some (.operand (.no condition e :: stack))
  | comma, (.call f arguments :: stack, e) => some (.operand (.call f (arguments ++ [e]) :: stack))
  | closing, (.call f arguments :: stack, e) => some (.operator stack (.call f (arguments ++ [e])))
  | closing, (.parenthesis :: stack, e) => some (.operator stack e)
  | _, _ => none

end Token

namespace Reading

def step : Reading → Token → Option Reading
  | operand stack, .numeral text => some (.operator stack (.numeral text))
  | operand stack, .word text => some (.operator stack (.ofWord text))
  | operand stack, .opening => some (.operand (.parenthesis :: stack))
  | operand stack, .operator sign =>
      (PrefixOperator.ofSign? sign).map fun op => .operand (.prefixed op :: stack)
  | operand (.call f [] :: stack), .closing => some (.operator stack (.call f []))
  | operator stack e, t => t.level?.bind fun level => t.shift (reduce level stack e)
  | member stack e, .word text => some (.operator stack (.member e text))
  | _, _ => none

def run (r : Reading) (ts : List Token) : Option Reading := ts.foldlM step r

/-- The expression at the end, where nothing is left open. -/
def finish : Reading → Option Expression
  | operator stack e =>
      match reduce .anything stack e with
      | ([], whole) => some whole
      | _ => none
  | _ => none

theorem run_cons (r : Reading) (t : Token) (ts : List Token) :
    r.run (t :: ts) = (r.step t).bind fun r' => r'.run ts := rfl

theorem run_append (r : Reading) (ts us : List Token) :
    r.run (ts ++ us) = (r.run ts).bind fun r' => r'.run us := List.foldlM_append

theorem run_cons_of_step {r r' : Reading} {t : Token} {ts : List Token} (h : r.step t = some r') :
    r.run (t :: ts) = r'.run ts := by
  rw [run_cons, h]
  rfl

theorem run_append_of_run {r r' : Reading} {ts us : List Token} (h : r.run ts = some r') :
    r.run (ts ++ us) = r'.run us := by
  rw [run_append, h]
  rfl

end Reading

/-- The expression that tokens spell. -/
def parse (ts : List Token) : Option Expression :=
  ((Reading.operand []).run ts).bind Reading.finish

/-! What the grammar derives is read. -/

/-- Is nothing on the stack closed by a token that goes on with an operand of a level? -/
def Admits (p : Precedence) (stack : List Frame) : Prop :=
  ∀ (t : Token) q, t.level? = some q → q.rank ≤ p.rank → ∀ e, reduce q stack e = (stack, e)

/-- Is an expression of a level read, up to operators that the next token closes? -/
def Reading.Holds (r : Reading) (p : Precedence) (stack : List Frame) (e : Expression) : Prop :=
  ∃ top part, r = .operator top part ∧
    ∀ q : Precedence, p.rank ≤ q.rank → reduce q top part = reduce q stack e

/-- No token asks for the level of prefix operators, or of choices. -/
theorem Token.level?_ne {t : Token} {q : Precedence} (h : t.level? = some q) :
    q ≠ .unaryPrefix ∧ q ≠ .conditional := by
  cases t with
  | operator sign =>
      obtain ⟨op, -, rfl⟩ := Option.map_eq_some_iff.mp h
      cases op <;> decide
  | numeral | word => exact absurd h (by simp [level?])
  | _ =>
      obtain rfl := Option.some.inj h
      decide

section reduce
variable {p q : Precedence} {stack : List Frame} {frame : Frame} {a b e whole : Expression}

theorem reduce_cons_of_le {level : Precedence} (h : frame.close? e = some (level, whole))
    (hle : level.rank ≤ q.rank) : reduce q (frame :: stack) e = reduce q stack whole := by
  simp [reduce, h, hle]

theorem reduce_cons_of_lt {level : Precedence} (h : frame.close? e = some (level, whole))
    (hlt : q.rank < level.rank) : reduce q (frame :: stack) e = (frame :: stack, e) := by
  simp [reduce, h, Nat.not_le.mpr hlt]

theorem reduce_cons_of_none (h : frame.close? e = none) :
    reduce q (frame :: stack) e = (frame :: stack, e) := by
  simp [reduce, h]

theorem Admits.nil (p : Precedence) : Admits p [] := fun _ _ _ _ _ => rfl

theorem Admits.mono (h : Admits p stack) (hle : q.rank ≤ p.rank) : Admits q stack :=
  fun t r ht hr => h t r ht (Nat.le_trans hr hle)

/-- Brackets are closed by no operator. -/
theorem Admits.bracket (h : ∀ e, frame.close? e = none) : Admits p (frame :: stack) :=
  fun _ _ _ _ e => reduce_cons_of_none (h e)

theorem Admits.infixed (op : Operator) (a : Expression) :
    Admits op.level.tighter (.infixed op a :: stack) := by
  intro t q _ hle e
  apply reduce_cons_of_lt rfl
  exact Nat.lt_of_le_of_lt hle op.tighter_rank_lt

theorem Admits.prefixed (op : PrefixOperator) : Admits .unaryPrefix (.prefixed op :: stack) := by
  intro t q ht hle e
  apply reduce_cons_of_lt rfl
  have hne := mt (fun h => Precedence.rank_injective h) (Token.level?_ne ht).1
  omega

theorem Admits.no (a b : Expression) : Admits .conditional (.no a b :: stack) := by
  intro t q ht hle e
  apply reduce_cons_of_lt rfl
  have hne := mt (fun h => Precedence.rank_injective h) (Token.level?_ne ht).2
  omega

end reduce

namespace Reading
variable {r : Reading} {p q : Precedence} {stack : List Frame} {frame : Frame}
  {e whole : Expression} {t : Token}

theorem Holds.operator (stack : List Frame) (e : Expression) (p : Precedence) :
    (operator stack e).Holds p stack e :=
  ⟨stack, e, rfl, fun _ _ => rfl⟩

theorem Holds.mono (h : r.Holds p stack e) (hle : p.rank ≤ q.rank) : r.Holds q stack e := by
  obtain ⟨top, part, rfl, hr⟩ := h
  exact ⟨top, part, rfl, fun level hlevel => hr level (Nat.le_trans hle hlevel)⟩

/-- With its last operand, an operator is read. -/
theorem Holds.close {level : Precedence} (h : r.Holds q (frame :: stack) e)
    (hc : frame.close? e = some (level, whole)) (hle : q.rank ≤ level.rank) :
    r.Holds level stack whole := by
  obtain ⟨top, part, rfl, hr⟩ := h
  refine ⟨top, part, rfl, fun s hs => ?_⟩
  calc
    reduce s top part = reduce s (frame :: stack) e := hr s (Nat.le_trans hle hs)
    _ = reduce s stack whole := reduce_cons_of_le hc hs

/-- A token goes on behind what is read as a whole. -/
theorem Holds.step {level : Precedence} (h : r.Holds p stack e) (ht : t.level? = some level)
    (hle : p.rank ≤ level.rank) : r.step t = t.shift (reduce level stack e) := by
  obtain ⟨top, part, rfl, hr⟩ := h
  have hs : (Reading.operator top part).step t =
      t.level?.bind fun level => t.shift (reduce level top part) := by
    cases t <;> rfl
  rw [hs, ht, ← hr level hle]
  rfl

theorem Holds.step_admits {level : Precedence} (h : r.Holds p stack e) (ht : t.level? = some level)
    (hle : p.rank ≤ level.rank) (admits : Admits level stack) :
    r.step t = t.shift (stack, e) := by
  rw [h.step ht hle, admits t level ht (Nat.le_refl _)]

theorem Holds.finish (h : r.Holds p [] e) (hle : p.rank ≤ Precedence.anything.rank) :
    r.finish = some e := by
  obtain ⟨top, part, rfl, hr⟩ := h
  simp [Reading.finish, hr .anything hle, reduce]

/-- The arguments of a call are read one after another, up to the closing parenthesis. -/
theorem run_arguments {f : Expression} {done : List Expression}
    {arguments : List (List Token × Expression)} (hne : arguments ≠ [])
    (each : ∀ argument ∈ arguments, ∀ stack, Admits .anything stack →
      ∃ r, (operand stack).run argument.1 = some r ∧ r.Holds .anything stack argument.2) :
    (operand (.call f done :: stack)).run
        (commaSeparated (arguments.map (·.1)) ++ [.closing]) =
      some (.operator stack (.call f (done ++ arguments.map (·.2)))) := by
  induction arguments generalizing done with
  | nil => exact absurd rfl hne
  | cons argument rest ih =>
      have open_ (done : List Expression) : Admits .anything (.call f done :: stack) :=
        Admits.bracket fun _ => rfl
      obtain ⟨r, hr, holds⟩ := each argument List.mem_cons_self _ (open_ done)
      cases rest with
      | nil =>
          simp only [List.map_cons, List.map_nil, commaSeparated]
          rw [run_append_of_run hr]
          apply run_cons_of_step
          exact holds.step_admits rfl (Nat.le_refl _) (open_ done)
      | cons second rest =>
          simp only [List.map_cons, commaSeparated, List.append_assoc, List.cons_append]
          rw [run_append_of_run hr]
          have comma : r.step .comma = some (.operand (.call f (done ++ [argument.2]) :: stack)) :=
            holds.step_admits rfl (Nat.le_refl _) (open_ done)
          rw [run_cons_of_step comma]
          have tail : (operand (.call f (done ++ [argument.2]) :: stack)).run
              (commaSeparated ((second :: rest).map (·.1)) ++ [.closing]) =
                some (.operator stack (.call f (done ++ [argument.2] ++
                  (second :: rest).map (·.2)))) := by
            apply ih
            · simp
            · exact fun a ha => each a (List.mem_cons_of_mem _ ha)
          simpa using tail

end Reading

/-- Where a place admits what tokens spell, they are read as a whole. -/
theorem Derives.run {p : Precedence} {ts : List Token} {e : Expression} (h : Derives p ts e)
    (stack : List Frame) (admits : Admits p stack) :
    ∃ r, (Reading.operand stack).run ts = some r ∧ r.Holds p stack e := by
  open Reading in
  induction h generalizing stack with
  | numeral text => exact ⟨_, rfl, .operator stack _ _⟩
  | word text => exact ⟨_, rfl, .operator stack _ _⟩
  | @parenthesized ts e _ ih =>
      have bracket : Admits .anything (.parenthesis :: stack) := Admits.bracket fun _ => rfl
      obtain ⟨r, hr, holds⟩ := ih _ bracket
      refine ⟨.operator stack e, ?_, .operator stack e _⟩
      have opened : (Reading.operand stack).step .opening =
          some (.operand (.parenthesis :: stack)) := rfl
      rw [run_cons_of_step opened, run_append_of_run hr]
      apply run_cons_of_step
      exact holds.step_admits rfl (Nat.le_refl _) bracket
  | @member ts e name _ ih =>
      obtain ⟨r, hr, holds⟩ := ih _ admits
      refine ⟨.operator stack (.member e name), ?_, .operator stack _ _⟩
      have point : r.step .point = some (.member stack e) :=
        holds.step_admits rfl (Nat.le_refl _) admits
      calc
        (operand stack).run (ts ++ [.point, .word name]) = r.run [.point, .word name] :=
          run_append_of_run hr
        _ = (Reading.member stack e).run [.word name] := run_cons_of_step point
        _ = some (.operator stack (.member e name)) := rfl
  | @call ts f arguments _ _ ihf each =>
      obtain ⟨r, hr, holds⟩ := ihf _ admits
      refine ⟨.operator stack (.call f (arguments.map (·.2))), ?_, .operator stack _ _⟩
      have opening : r.step .opening = some (.operand (.call f [] :: stack)) :=
        holds.step_admits rfl (Nat.le_refl _) admits
      rw [run_append_of_run hr, run_cons_of_step opening]
      by_cases hne : arguments = []
      · subst hne
        rfl
      · exact run_arguments hne each
  | @prefixed ts e op _ ih =>
      obtain ⟨r, hr, holds⟩ := ih _ (Admits.prefixed op)
      refine ⟨r, ?_, holds.close rfl (Nat.le_refl _)⟩
      have sign : (Reading.operand stack).step (.operator op.sign) =
          some (.operand (.prefixed op :: stack)) := by
        simp [Reading.step]
      rw [run_cons_of_step sign, hr]
  | @infixed ts us a b op _ _ iha ihb =>
      obtain ⟨r, hr, holds⟩ := iha _ admits
      obtain ⟨r', hr', holds'⟩ := ihb _ (Admits.infixed op a)
      refine ⟨r', ?_, holds'.close rfl (Nat.le_of_lt op.tighter_rank_lt)⟩
      have level : Token.level? (.operator op.sign) = some op.level := by
        simp [Token.level?]
      have sign : r.step (.operator op.sign) = some (.operand (.infixed op a :: stack)) := by
        rw [holds.step_admits level (Nat.le_refl _) admits]
        simp [Token.shift]
      calc
        (operand stack).run (ts ++ .operator op.sign :: us) = r.run (.operator op.sign :: us) :=
          run_append_of_run hr
        _ = (operand (.infixed op a :: stack)).run us := run_cons_of_step sign
        _ = some r' := hr'
  | @choice ts us vs a b c _ _ _ iha ihb ihc =>
      have bracket : Admits .conditional (.yes a :: stack) := Admits.bracket fun _ => rfl
      obtain ⟨ra, hra, holdsa⟩ := iha _ (admits.mono (by decide))
      obtain ⟨rb, hrb, holdsb⟩ := ihb _ bracket
      obtain ⟨rc, hrc, holdsc⟩ := ihc _ (Admits.no a b)
      refine ⟨rc, ?_, holdsc.close rfl (Nat.le_refl _)⟩
      have question : ra.step .question = some (.operand (.yes a :: stack)) :=
        holdsa.step_admits rfl (Nat.le_refl _) (admits.mono (by decide))
      have colon : rb.step .colon = some (.operand (.no a b :: stack)) :=
        holdsb.step_admits rfl (by decide) (Admits.bracket fun _ => rfl)
      calc
        (operand stack).run (ts ++ .question :: (us ++ .colon :: vs)) =
            ra.run (.question :: (us ++ .colon :: vs)) := run_append_of_run hra
        _ = (operand (.yes a :: stack)).run (us ++ .colon :: vs) := run_cons_of_step question
        _ = rb.run (.colon :: vs) := run_append_of_run hrb
        _ = (operand (.no a b :: stack)).run vs := run_cons_of_step colon
        _ = some rc := hrc
  | @looser p ts e _ ih =>
      have hle : p.tighter.rank ≤ p.rank := by
        rw [Precedence.rank_tighter]
        exact Nat.sub_le _ _
      obtain ⟨r, hr, holds⟩ := ih _ (admits.mono hle)
      exact ⟨r, hr, holds.mono hle⟩

/-- What the grammar derives, the parser reads. -/
theorem Derives.parse {p : Precedence} {ts : List Token} {e : Expression} (h : Derives p ts e) :
    parse ts = some e := by
  obtain ⟨r, hr, holds⟩ := h.run [] (Admits.nil p)
  rw [BlockScript.parse, hr]
  exact holds.finish (by cases p <;> decide)

/-- No tokens spell two expressions. -/
theorem Derives.unique {p q : Precedence} {ts : List Token} {a b : Expression}
    (h : Derives p ts a) (h' : Derives q ts b) : a = b := by
  have same := h.parse.symm.trans h'.parse
  exact Option.some.inj same

end BlockScript
