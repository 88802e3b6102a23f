import BlockScript.Proofs.Expression.Lexer
import BlockScript.Proofs.Expression.Parser
import BlockScript.Template.Operator

/-! # Code that spells an expression

Code that spells an expression at its level, with a law for each way of putting code together.
With parentheses where a place asks for them, code spells the same expression there. Code stands
for all expressions that differ from the one it spells in the grouping of connectives only. -/

namespace BlockScript

open Text Names Number

/-- Code is read as one expression, which fits a place of the level. -/
structure Spells (code : String) (level : Precedence) (e : Expression) : Prop where
  reads : ∃ ts, Lexes Boundary code ts ∧ Derives level ts e
  /-- A sign in front of the code does not run into it. -/
  start : ∃ c rest, code.toList = c :: rest ∧ c ≠ '='

namespace Spells
variable {code a b c : String} {level : Precedence} {e x y z : Expression}

theorem ne_empty (h : Spells code level e) : code ≠ "" := by
  rintro rfl
  obtain ⟨c, rest, hc, -⟩ := h.start
  simp at hc

/-- A whole text is parsed as what it spells. -/
theorem parse_eq (h : Spells code level e) : parse (lex code.toList) = some e := by
  obtain ⟨ts, hl, hd⟩ := h.reads
  rw [hl.lex_eq]
  exact hd.parse

theorem derives (h : Spells code level e) : Derives level (lex code.toList) e := by
  obtain ⟨ts, hl, hd⟩ := h.reads
  rwa [hl.lex_eq]

theorem start_append (h : Spells a level x) (more : String) :
    ∃ c rest, (a ++ more).toList = c :: rest ∧ c ≠ '=' := by
  obtain ⟨c, rest, hc, hne⟩ := h.start
  exact ⟨c, rest ++ more.toList, by rw [String.toList_append, hc, List.cons_append], hne⟩

/-- In the parentheses that a place asks for, code spells the same expression there. -/
theorem wrap (h : Spells code level e) (required : Precedence) :
    Spells (Precedence.wrap code level required) required e := by
  obtain ⟨ts, hl, hd⟩ := h.reads
  unfold Precedence.wrap
  split
  · constructor
    · refine ⟨.opening :: (ts ++ [.closing]), hl.parenthesized, ?_⟩
      have inner : Derives .anything ts e := hd.mono (by cases level <;> decide)
      exact (Derives.parenthesized inner).mono (Nat.zero_le _)
    · exact ⟨'(', code.toList ++ [')'], by simp [Precedence.parenthesized], by decide⟩
  · next hp =>
      rw [Precedence.needsParens_iff, Nat.not_lt] at hp
      exact ⟨⟨ts, hl, hd.mono hp⟩, h.start⟩

/-- Code fits every place that is looser than the one it fits. -/
theorem mono (h : Spells code level e) {looser : Precedence} (hle : level.rank ≤ looser.rank) :
    Spells code looser e := by
  obtain ⟨ts, hl, hd⟩ := h.reads
  exact ⟨⟨ts, hl, hd.mono hle⟩, h.start⟩

theorem word {text : String} (h : isIdentifier text.toList = true) :
    Spells text .atomic (.ofWord text) := by
  constructor
  · exact ⟨[.word text], Lexes.word h fun _ hb => hb.not_isNameChar, .word text⟩
  · obtain ⟨⟨c, rest, hc, -⟩, hall⟩ := (isIdentifier_iff _).mp h
    refine ⟨c, rest, hc, ?_⟩
    rintro rfl
    exact absurd (hall '=' (hc ▸ List.mem_cons_self)) (by decide)

theorem numeral {text : String} (h : IsNumeral text.toList) :
    Spells text .atomic (.numeral text) := by
  constructor
  · exact ⟨[.numeral text], Lexes.numeral h, .numeral text⟩
  · obtain ⟨c, rest, hc, hd⟩ := h.exists_cons
    refine ⟨c, rest, hc, ?_⟩
    rintro rfl
    exact absurd hd (by decide)

/-- Two operands and the sign between them; the right one binds tighter. -/
theorem infixed (op : Operator) (ha : Spells a op.level x) (hb : Spells b op.level.tighter y) :
    Spells (a ++ " " ++ op.sign ++ " " ++ b) op.level (.infixed op x y) := by
  obtain ⟨ts, hl, hd⟩ := ha.reads
  obtain ⟨us, hl', hd'⟩ := hb.reads
  constructor
  · exact ⟨_, hl.infixed op hl', .infixed op hd hd'⟩
  · simpa only [String.append_assoc] using ha.start_append (" " ++ (op.sign ++ (" " ++ b)))

/-- The sign of an operator may be written together with the blanks around it. -/
theorem infixed_text (op : Operator) {text : String} (ht : text = " " ++ op.sign ++ " ")
    (ha : Spells a op.level x) (hb : Spells b op.level.tighter y) :
    Spells (a ++ text ++ b) op.level (.infixed op x y) := by
  subst ht
  simpa only [String.append_assoc] using ha.infixed op hb

/-- A connective takes a right operand of its own level: what is read groups to the left. -/
theorem connective {op : Operator} (h : op.isConnective) (ha : Spells a op.level x)
    (hb : Spells b op.level y) :
    ∃ e, Spells (a ++ " " ++ op.sign ++ " " ++ b) op.level e ∧
      e.Reassociates (.infixed op x y) := by
  obtain ⟨ts, hl, hd⟩ := ha.reads
  obtain ⟨us, hl', hd'⟩ := hb.reads
  obtain ⟨e, he, hr⟩ := Derives.connective h hd hd'
  refine ⟨e, ⟨⟨_, hl.infixed op hl', he⟩, ?_⟩, hr⟩
  simpa only [String.append_assoc] using ha.start_append (" " ++ (op.sign ++ (" " ++ b)))

/-- A sign in front of an operand that it does not run into. -/
theorem prefixed (op : PrefixOperator) (h : Spells a .unaryPrefix x)
    (apart : a.toList.head? ≠ some op.clash) :
    Spells (op.sign ++ a) .unaryPrefix (.prefixed op x) := by
  obtain ⟨ts, hl, hd⟩ := h.reads
  constructor
  · refine ⟨_, (Lexes.prefixSign op).append hl ?_, .prefixed op hd⟩
    intro rest _
    rwa [List.head?_append_of_ne_nil _ (mt String.toList_eq_nil_iff.mp h.ne_empty)]
  · cases op
    · exact ⟨'-', a.toList, by simp [PrefixOperator.sign], by decide⟩
    · exact ⟨'!', a.toList, by simp [PrefixOperator.sign], by decide⟩

/-- A minus sign is kept apart from another one. -/
theorem minus (h : Spells a .unaryPrefix x) :
    Spells (Template.minus a) .unaryPrefix (.prefixed .minus x) := by
  unfold Template.minus
  split
  · obtain ⟨ts, hl, hd⟩ := h.reads
    constructor
    · exact ⟨_, Lexes.minusBlank.append hl fun _ _ => True.intro, .prefixed .minus hd⟩
    · exact ⟨'-', ' ' :: a.toList, by simp, by decide⟩
  · next apart =>
      apply prefixed .minus h
      intro hclash
      obtain ⟨rest, hr⟩ := List.head?_eq_some_iff.mp hclash
      exact apart rest hr

theorem not (h : Spells a .unaryPrefix x) :
    Spells ("!" ++ a) .unaryPrefix (.prefixed .not x) := by
  apply prefixed .not h
  obtain ⟨c, rest, hc, hne⟩ := h.start
  rw [hc]
  exact fun hclash => hne (Option.some.inj hclash)

theorem choice (ha : Spells a Precedence.conditional.tighter x) (hb : Spells b .conditional y)
    (hc : Spells c .conditional z) :
    Spells (a ++ " ? " ++ b ++ " : " ++ c) .conditional (.choice x y z) := by
  obtain ⟨ts, hla, hda⟩ := ha.reads
  obtain ⟨us, hlb, hdb⟩ := hb.reads
  obtain ⟨vs, hlc, hdc⟩ := hc.reads
  constructor
  · refine ⟨ts ++ .question :: (us ++ .colon :: vs), ?_, .choice hda hdb hdc⟩
    have no : Lexes Boundary (" : " ++ c) ([.colon] ++ vs) :=
      Lexes.spacedColon.append hlc fun _ _ => True.intro
    have yes : Lexes Boundary (b ++ (" : " ++ c)) (us ++ ([.colon] ++ vs)) :=
      hlb.append no fun _ _ => by simp [Boundary]
    have asked : Lexes Boundary (" ? " ++ (b ++ (" : " ++ c)))
        ([.question] ++ (us ++ ([.colon] ++ vs))) :=
      Lexes.spacedQuestion.append yes fun _ _ => True.intro
    have whole := hla.append asked fun _ _ => by simp [Boundary]
    simpa only [String.append_assoc, List.singleton_append] using whole
  · simpa only [String.append_assoc] using ha.start_append (" ? " ++ (b ++ (" : " ++ c)))

theorem powerOpening :
    Lexes Anywhere "Math.pow(" [.word "Math", .point, .word "pow", .opening] := by
  have pow : Lexes Anywhere ("pow" ++ "(") ([.word "pow"] ++ [.opening]) :=
    (Lexes.word_before "pow" '(' (by decide) (by decide)).append Lexes.opening (by simp)
  have behind : Lexes Anywhere ("." ++ ("pow" ++ "("))
      ([.point] ++ ([.word "pow"] ++ [.opening])) :=
    Lexes.point.append pow fun _ _ => True.intro
  have text : "Math.pow(" = "Math" ++ ("." ++ ("pow" ++ "(")) := by decide
  rw [text]
  exact (Lexes.word_before "Math" '.' (by decide) (by decide)).append behind (by simp)

/-- A power is a call; its arguments stand by themselves. -/
theorem power (ha : Spells a .anything x) (hb : Spells b .anything y) :
    Spells ("Math.pow(" ++ a ++ ", " ++ b ++ ")") .unaryPostfix
      (.call (.member (.name "Math") "pow") [x, y]) := by
  obtain ⟨ts, hla, hda⟩ := ha.reads
  obtain ⟨us, hlb, hdb⟩ := hb.reads
  constructor
  · have called : Derives .unaryPostfix [.word "Math", .point, .word "pow"]
        (.member (.name "Math") "pow") :=
      .member "pow" (.looser (.word "Math"))
    have derived := Derives.call [(ts, x), (us, y)] called (by simp [hda, hdb])
    refine ⟨_, ?_, derived⟩
    have second : Lexes Boundary (b ++ ")") (us ++ [.closing]) :=
      hlb.append Lexes.closing.anywhere fun _ _ => by simp [Boundary]
    have rest : Lexes Boundary (", " ++ (b ++ ")")) ([.comma] ++ (us ++ [.closing])) :=
      Lexes.commaBlank.append second fun _ _ => True.intro
    have first : Lexes Boundary (a ++ (", " ++ (b ++ ")")))
        (ts ++ ([.comma] ++ (us ++ [.closing]))) :=
      hla.append rest fun _ _ => by simp [Boundary]
    have whole := powerOpening.append first fun _ _ => True.intro
    simpa [String.append_assoc, commaSeparated] using whole
  · refine ⟨'M', ("ath.pow(" ++ a ++ ", " ++ b ++ ")").toList, ?_, by decide⟩
    simp [String.toList_append]

end Spells

/-- Code spells an expression, nested connectives apart. -/
def Stands (code : String) (level : Precedence) (e : Expression) : Prop :=
  ∃ read, Spells code level read ∧ read.Reassociates e

theorem Spells.stands {code : String} {level : Precedence} {e : Expression}
    (h : Spells code level e) : Stands code level e :=
  ⟨e, h, .refl e⟩

namespace Stands
variable {code a b c : String} {level : Precedence} {e x y z : Expression}

theorem wrap (h : Stands code level e) (required : Precedence) :
    Stands (Precedence.wrap code level required) required e := by
  obtain ⟨read, hs, hr⟩ := h
  exact ⟨read, hs.wrap required, hr⟩

theorem mono (h : Stands code level e) {looser : Precedence} (hle : level.rank ≤ looser.rank) :
    Stands code looser e := by
  obtain ⟨read, hs, hr⟩ := h
  exact ⟨read, hs.mono hle, hr⟩

theorem infixed (op : Operator) (ha : Stands a op.level x) (hb : Stands b op.level.tighter y) :
    Stands (a ++ " " ++ op.sign ++ " " ++ b) op.level (.infixed op x y) := by
  obtain ⟨x', hx, hrx⟩ := ha
  obtain ⟨y', hy, hry⟩ := hb
  exact ⟨_, hx.infixed op hy, .infixed op hrx hry⟩

/-- The sign of an operator may be written together with the blanks around it. -/
theorem infixed_text (op : Operator) {text : String} (ht : text = " " ++ op.sign ++ " ")
    (ha : Stands a op.level x) (hb : Stands b op.level.tighter y) :
    Stands (a ++ text ++ b) op.level (.infixed op x y) := by
  obtain ⟨x', hx, hrx⟩ := ha
  obtain ⟨y', hy, hry⟩ := hb
  exact ⟨_, hx.infixed_text op ht hy, .infixed op hrx hry⟩

theorem connective {op : Operator} (h : op.isConnective) (ha : Stands a op.level x)
    (hb : Stands b op.level y) :
    Stands (a ++ " " ++ op.sign ++ " " ++ b) op.level (.infixed op x y) := by
  obtain ⟨x', hx, hrx⟩ := ha
  obtain ⟨y', hy, hry⟩ := hb
  obtain ⟨read, hs, hr⟩ := hx.connective h hy
  exact ⟨read, hs, .trans hr (.infixed op hrx hry)⟩

theorem minus (h : Stands a .unaryPrefix x) :
    Stands (Template.minus a) .unaryPrefix (.prefixed .minus x) := by
  obtain ⟨x', hx, hr⟩ := h
  exact ⟨_, hx.minus, .prefixed .minus hr⟩

theorem not (h : Stands a .unaryPrefix x) : Stands ("!" ++ a) .unaryPrefix (.prefixed .not x) := by
  obtain ⟨x', hx, hr⟩ := h
  exact ⟨_, hx.not, .prefixed .not hr⟩

theorem choice (ha : Stands a Precedence.conditional.tighter x) (hb : Stands b .conditional y)
    (hc : Stands c .conditional z) :
    Stands (a ++ " ? " ++ b ++ " : " ++ c) .conditional (.choice x y z) := by
  obtain ⟨x', hx, hrx⟩ := ha
  obtain ⟨y', hy, hry⟩ := hb
  obtain ⟨z', hz, hrz⟩ := hc
  exact ⟨_, hx.choice hy hz, .choice hrx hry hrz⟩

theorem power (ha : Stands a .anything x) (hb : Stands b .anything y) :
    Stands ("Math.pow(" ++ a ++ ", " ++ b ++ ")") .unaryPostfix
      (.call (.member (.name "Math") "pow") [x, y]) := by
  obtain ⟨x', hx, hrx⟩ := ha
  obtain ⟨y', hy, hry⟩ := hb
  exact ⟨_, hx.power hy, .call [(x', x), (y', y)] (.refl _) (by simp [hrx, hry])⟩

/-! Literals and names. -/

theorem digit {text : String} (h : text ∈ ["0", "1", "2"]) : Stands text level (.numeral text) := by
  have atom : Spells text .atomic (.numeral text) := by
    apply Spells.numeral
    simp only [List.mem_cons, List.not_mem_nil, or_false] at h
    rcases h with rfl | rfl | rfl
    · exact isNumeral_of_all (by decide) (by decide)
    · exact isNumeral_of_all (by decide) (by decide)
    · exact isNumeral_of_all (by decide) (by decide)
  exact (atom.mono (Nat.zero_le _)).stands

theorem truth (value : Bool) : Stands (if value then "true" else "false") level (.truth value) := by
  have atom : Spells (if value then "true" else "false") .atomic (.truth value) := by
    cases value
    · exact (Spells.word (by decide) : Spells "false" .atomic (.ofWord "false"))
    · exact (Spells.word (by decide) : Spells "true" .atomic (.ofWord "true"))
  exact (atom.mono (Nat.zero_le _)).stands

theorem null : Stands "null" level .null := by
  have atom : Spells "null" .atomic (.ofWord "null") := Spells.word (by decide)
  exact (atom.mono (Nat.zero_le _)).stands

theorem name {text : String} (h : Names.isIdentifier text.toList = true)
    (free : text ∉ reservedWords) : Stands text .atomic (.name text) := by
  have word : Expression.ofWord text = .name text := by
    unfold Expression.ofWord
    split
    · exact absurd (by decide) free
    · exact absurd (by decide) free
    · exact absurd (by decide) free
    · rfl
  exact word ▸ (Spells.word h).stands

end Stands

end BlockScript
