import BlockScript.Proofs.Expression.Arithmetic
import BlockScript.Proofs.Expression.Printed
import BlockScript.Text.Shape

/-! # Code that looks like a number

The shape of a number is told from the text alone, and it is wider than what arithmetic is written
with: it has points, exponents, digits of all scripts and all kinds of blanks. Code that spells
arithmetic has that shape only if it is a whole number, with a sign or without, and with blanks
around it. -/

namespace BlockScript

open Text Names Number

/-- The characters of a token. -/
def Token.chars : Token → List Char
  | numeral text | word text | operator text => text.toList
  | opening => ['(']
  | closing => [')']
  | comma => [',']
  | point => ['.']
  | question => ['?']
  | colon => [':']

theorem chars_singleSign (c : Char) : (singleSign c).chars = [c] := by
  unfold singleSign
  split <;> simp [Token.chars]

theorem spanNumeral_append (cs : List Char) : (spanNumeral cs).1 ++ (spanNumeral cs).2 = cs := by
  have whole := List.takeWhile_append_dropWhile (p := isAsciiDigit) (l := cs)
  unfold spanNumeral
  split
  · next fraction h =>
      rw [h] at whole
      split
      · exact whole
      · have rest := List.takeWhile_append_dropWhile (p := isAsciiDigit) (l := fraction)
        simp only [List.append_assoc, List.cons_append, rest]
        exact whole
  · exact whole

theorem singleSign_ne_word (c : Char) (text : String) : singleSign c ≠ .word text := by
  unfold singleSign
  split <;> exact Token.noConfusion

/-- A token and what follows it are the text. -/
theorem chars_munch (c : Char) (cs : List Char) :
    (munch c cs).1.chars ++ (munch c cs).2 = c :: cs := by
  unfold munch
  split
  · simp [Token.chars, spanNumeral_append]
  · split
    · simp [Token.chars]
    · split
      · split
        · simp [Token.chars]
        · simp [chars_singleSign]
      · simp [chars_singleSign]

theorem isNameChar_of_munch {c : Char} {cs : List Char} {text : String}
    (h : (munch c cs).1 = .word text) : ∀ d ∈ text.toList, isNameChar d = true := by
  unfold munch at h
  split at h
  · cases h
  · split at h
    · next name =>
        cases h
        intro d hd
        rw [String.toList_ofList] at hd
        rcases List.mem_cons.mp hd with rfl | hd
        · exact name
        · exact List.mem_takeWhile_imp hd
    · split at h
      · split at h
        · cases h
        · exact absurd h (singleSign_ne_word c text)
      · exact absurd h (singleSign_ne_word c text)

/-- No character but a blank is lost. -/
theorem exists_mem_lex {cs : List Char} {c : Char} (h : c ∈ cs) (hb : c ≠ ' ') :
    ∃ t ∈ lex cs, c ∈ t.chars ∧ ∀ text, t = .word text → isNameChar c = true := by
  induction cs using lex.induct with
  | case1 => exact absurd h List.not_mem_nil
  | case2 rest ih =>
      rw [lex_cons, if_pos rfl]
      exact ih ((List.mem_cons.mp h).resolve_left hb)
  | case3 first rest apart ih =>
      rw [lex_cons, if_neg apart]
      rw [← chars_munch] at h
      rcases List.mem_append.mp h with h | h
      · refine ⟨_, List.mem_cons_self, h, fun text word => ?_⟩
        rw [word] at h
        exact isNameChar_of_munch word c h
      · obtain ⟨t, ht, hc⟩ := ih h
        exact ⟨t, List.mem_cons_of_mem _ ht, hc⟩

/-- The characters that arithmetic is written with: those of names and numerals, operators and
parentheses, and the blank between them. -/
def isArithmeticChar (c : Char) : Bool :=
  isNameChar c || ['*', '/', '%', '+', '-', '(', ')', ' '].contains c

theorem isArithmeticChar_of_spells {code : String} {level : Precedence} {e : Expression}
    (spells : Spells code level e) (arithmetic : e.IsArithmetic) :
    ∀ c ∈ code.toList, isArithmeticChar c = true := by
  intro c hc
  by_cases hb : c = ' '
  · subst hb
    decide
  · obtain ⟨t, ht, hct, word⟩ := exists_mem_lex hc hb
    cases spells.derives.isArithmetic_of_mem arithmetic t ht with
    | @numeral text h =>
        obtain ⟨raw, x, n, read, whole, rfl⟩ := h
        have digit := (isWholeText_of_whole (isCanonical_readField read) whole).digits c hct
        simp [isArithmeticChar, isNameChar_of_isAsciiDigit digit]
    | word text => simp [isArithmeticChar, word text rfl]
    | @operator op h =>
        have signs : ∀ op ∈ Operator.arithmetic, op.sign.toList.all isArithmeticChar = true := by
          decide
        exact List.all_eq_true.mp (signs op h) c hct
    | opening =>
        obtain rfl := List.mem_singleton.mp hct
        decide
    | closing =>
        obtain rfl := List.mem_singleton.mp hct
        decide

theorem toNat_lt_of_isArithmeticChar {c : Char} (h : isArithmeticChar c = true) :
    c.toNat < 128 := by
  simp only [isArithmeticChar, isNameChar, isAsciiAlphanumeric, isAsciiDigit, Bool.or_eq_true,
    Bool.and_eq_true, decide_eq_true_eq, beq_iff_eq, List.contains_iff_mem, List.mem_cons,
    List.not_mem_nil, or_false, Char.le_def] at h
  rcases h with (((⟨-, high⟩ | ⟨-, high⟩) | ⟨-, high⟩) | rfl) | rfl | rfl | rfl | rfl | rfl | rfl |
    rfl | rfl
  · exact Nat.lt_of_le_of_lt high (by decide)
  · exact Nat.lt_of_le_of_lt high (by decide)
  · exact Nat.lt_of_le_of_lt high (by decide)
  all_goals decide

/-- Of the blanks and digits of all scripts, and of the points, arithmetic has few. -/
theorem plain_of_isArithmeticChar {c : Char} (h : isArithmeticChar c = true) :
    (isBlank c = true → c = ' ') ∧ (isDecimalDigit c = true → isAsciiDigit c = true) ∧ c ≠ '.' := by
  have few : ∀ n < 128, isArithmeticChar (Char.ofNat n) = true →
      (isBlank (Char.ofNat n) = true → Char.ofNat n = ' ') ∧
        (isDecimalDigit (Char.ofNat n) = true → isAsciiDigit (Char.ofNat n) = true) ∧
          Char.ofNat n ≠ '.' := by
    decide +kernel
  rw [← Char.ofNat_toNat c] at h ⊢
  exact few c.toNat (toNat_lt_of_isArithmeticChar (Char.ofNat_toNat c ▸ h)) h

theorem exists_of_dropMinus (cs : List Char) :
    ∃ sign, (sign = [] ∨ sign = ['-']) ∧ cs = sign ++ dropMinus cs := by
  unfold dropMinus
  split
  · exact ⟨['-'], .inr rfl, rfl⟩
  · exact ⟨[], .inl rfl, rfl⟩

/-- Without a point, a magnitude is digits. -/
theorem exists_of_dropMagnitude {cs rest : List Char} (h : dropMagnitude cs = some rest)
    (point : '.' ∉ cs) :
    ∃ digits, digits ≠ [] ∧ (∀ c ∈ digits, isDecimalDigit c = true) ∧ cs = digits ++ rest := by
  have whole := List.takeWhile_append_dropWhile (p := isDecimalDigit) (l := cs)
  simp only [dropMagnitude, spanDigits] at h
  split at h
  · next tail htail =>
      rw [← whole, htail] at point
      exact absurd (List.mem_append_right _ List.mem_cons_self) point
  · obtain ⟨hne, rfl⟩ : cs.takeWhile isDecimalDigit ≠ [] ∧ cs.dropWhile isDecimalDigit = rest := by
      simpa using h
    exact ⟨_, hne, fun c hc => List.mem_takeWhile_imp hc, whole.symm⟩

theorem dropExponent_cases {cs rest : List Char} (h : dropExponent cs = some rest) :
    cs = rest ∨ ∃ more, cs = 'e' :: more := by
  unfold dropExponent at h
  split at h
  · exact .inr ⟨_, rfl⟩
  · exact .inl (Option.some.inj h)

/-- Digits that may have a sign, among blanks, and an exponent behind them or none. -/
theorem exists_of_isNumericLiteral {code : String} (numeric : isNumericLiteral code = true)
    (plain : ∀ c ∈ code.toList, isArithmeticChar c = true) :
    ∃ before sign digits rest, code.toList = before ++ (sign ++ (digits ++ rest)) ∧
      (∀ c ∈ before, c = ' ') ∧ (sign = [] ∨ sign = ['-']) ∧
      digits ≠ [] ∧ (∀ c ∈ digits, isAsciiDigit c = true) ∧
      ((∀ c ∈ rest, c = ' ') ∨ ∃ more, rest = 'e' :: more) := by
  rw [isNumericLiteral, trimStart] at numeric
  have whole := (List.takeWhile_append_dropWhile (p := isBlank) (l := code.toList)).symm
  have hbefore : ∀ c ∈ code.toList.takeWhile isBlank, isBlank c = true :=
    fun c hc => List.mem_takeWhile_imp hc
  obtain ⟨sign, hsign, hbody⟩ := exists_of_dropMinus (code.toList.dropWhile isBlank)
  rw [hbody] at whole
  split at numeric
  · exact Bool.noConfusion numeric
  · next rest magnitude =>
      have point : '.' ∉ dropMinus (code.toList.dropWhile isBlank) := by
        intro point
        have inside : '.' ∈ code.toList := by
          rw [whole]
          exact List.mem_append_right _ (List.mem_append_right _ point)
        exact (plain_of_isArithmeticChar (plain _ inside)).2.2 rfl
      obtain ⟨digits, hne, hdigits, hmagnitude⟩ := exists_of_dropMagnitude magnitude point
      rw [hmagnitude] at whole
      rw [whole] at plain
      simp only [List.forall_mem_append] at plain
      refine ⟨_, sign, digits, rest, whole, ?_, hsign, hne, ?_, ?_⟩
      · exact fun c hc => (plain_of_isArithmeticChar (plain.1 c hc)).1 (hbefore c hc)
      · exact fun c hc => (plain_of_isArithmeticChar (plain.2.2.1 c hc)).2.1 (hdigits c hc)
      · split at numeric
        · exact Bool.noConfusion numeric
        · next after exponent =>
            rcases dropExponent_cases exponent with rfl | more
            · refine .inl fun c hc => ?_
              exact (plain_of_isArithmeticChar (plain.2.2.2 c hc)).1
                (List.all_eq_true.mp numeric c hc)
            · exact .inr more

theorem isDecimalDigit_of_isAsciiDigit {c : Char} (h : isAsciiDigit c = true) :
    isDecimalDigit c = true := by
  simp only [isAsciiDigit, Bool.and_eq_true, decide_eq_true_eq, Char.le_def] at h
  exact (inRanges_iff _ _).mpr ⟨(0x30, 0x39), List.mem_cons_self, h⟩

/-- A numeral is a magnitude, and nothing follows it. -/
theorem dropMagnitude_of_isNumeral {cs : List Char} (h : IsNumeral cs) :
    dropMagnitude cs = some [] := by
  obtain ⟨whole, fraction, hne, digits, shape⟩ := h
  have decimal : ∀ c ∈ whole ++ fraction, isDecimalDigit c = true :=
    fun c hc => isDecimalDigit_of_isAsciiDigit (digits c hc)
  obtain ⟨hwhole, hfraction⟩ := List.forall_mem_append.mp decimal
  rcases shape with rfl | ⟨hne', rfl⟩
  · simp only [dropMagnitude, spanDigits, List.takeWhile_eq_self_iff.mpr hwhole,
      List.dropWhile_eq_nil_iff.mpr hwhole]
    simp [hne]
  · have point : isDecimalDigit '.' = false := by decide
    simp only [dropMagnitude, spanDigits, List.takeWhile_append_of_pos hwhole,
      List.dropWhile_append_of_pos hwhole, List.takeWhile_cons, List.dropWhile_cons, point,
      Bool.false_eq_true, if_false, List.takeWhile_eq_self_iff.mpr hfraction,
      List.dropWhile_eq_nil_iff.mpr hfraction]
    simp [hne']

/-- Numerals have the shape of a number, and so have numerals with a sign. -/
theorem isNumericLiteral_of_isNumeral {code : String} {sign cs : List Char}
    (text : code.toList = sign ++ cs) (hs : sign = [] ∨ sign = ['-']) (h : IsNumeral cs) :
    isNumericLiteral code = true := by
  have body : dropMinus (trimStart code.toList) = cs := by
    obtain ⟨c, rest, rfl, digit⟩ := h.exists_cons
    rw [text]
    rcases hs with rfl | rfl
    · rw [List.nil_append, trimStart, List.dropWhile_cons_of_neg]
      · unfold dropMinus
        split
        · next same => exact absurd (List.cons.inj same).1 (by rintro rfl; exact absurd digit (by decide))
        · rfl
      · rw [isBlank_of_isAsciiDigit digit]
        exact Bool.false_ne_true
    · rfl
  rw [isNumericLiteral, body, dropMagnitude_of_isNumeral h]
  rfl

theorem lex_blanks {blanks : List Char} (h : ∀ c ∈ blanks, c = ' ') (cs : List Char) :
    lex (blanks ++ cs) = lex cs := by
  induction blanks with
  | nil => rfl
  | cons c rest ih =>
      obtain ⟨rfl, hrest⟩ := List.forall_mem_cons.mp h
      rw [List.cons_append, lex_cons, if_pos rfl, ih hrest]

/-- Digits that nothing of a numeral follows are one token. -/
theorem lex_digits {digits rest : List Char} (hne : digits ≠ [])
    (h : ∀ c ∈ digits, isAsciiDigit c = true)
    (stop : ∀ c ∈ rest.head?, isAsciiDigit c = false ∧ c ≠ '.') :
    lex (digits ++ rest) = .numeral (String.ofList digits) :: lex rest := by
  obtain ⟨c, tail, rfl⟩ := List.exists_cons_of_ne_nil hne
  obtain ⟨hc, htail⟩ := List.forall_mem_cons.mp h
  have span : spanNumeral (tail ++ rest) = (tail, rest) := by
    unfold spanNumeral
    rw [takeWhile_append_eq htail fun c hc => (stop c hc).1,
      dropWhile_append_eq htail fun c hc => (stop c hc).1]
    split
    · exact absurd rfl (stop '.' rfl).2
    · rfl
  rw [List.cons_append, lex_cons, if_neg (ne_blank_of_isNameChar (isNameChar_of_isAsciiDigit hc))]
  simp only [munch, hc, if_true, span]

/-- A sign in front of digits is a token of its own. -/
theorem lex_sign_digits {sign digits rest : List Char} (hs : sign = [] ∨ sign = ['-'])
    (hne : digits ≠ []) (h : ∀ c ∈ digits, isAsciiDigit c = true)
    (stop : ∀ c ∈ rest.head?, isAsciiDigit c = false ∧ c ≠ '.') :
    ∃ signs, (sign = [] ∧ signs = [] ∨ sign = ['-'] ∧ signs = [.operator "-"]) ∧
      lex (sign ++ (digits ++ rest)) = signs ++ .numeral (String.ofList digits) :: lex rest := by
  rw [← lex_digits hne h stop]
  rcases hs with rfl | rfl
  · exact ⟨[], .inl ⟨rfl, rfl⟩, rfl⟩
  · refine ⟨[.operator "-"], .inr ⟨rfl, rfl⟩, Lexes.prefixSign .minus _ ?_⟩
    obtain ⟨c, tail, rfl⟩ := List.exists_cons_of_ne_nil hne
    rintro ⟨rfl⟩
    exact absurd (h _ List.mem_cons_self) (by decide)

/-- Behind a numeral there is no word in any expression. -/
theorem parse_numeral_word {signs : List Token} (hs : signs = [] ∨ signs = [.operator "-"])
    (digits word : String) (more : List Token) :
    parse (signs ++ .numeral digits :: .word word :: more) = none := by
  rcases hs with rfl | rfl <;> rfl

theorem trim_between {before body after : List Char} (hb : ∀ c ∈ before, isBlank c = true)
    (ha : ∀ c ∈ after, isBlank c = true) (hne : body ≠ []) (h : ∀ c ∈ body, isBlank c = false) :
    trim (before ++ (body ++ after)) = body := by
  have first {cs : List Char} (hne : cs ≠ []) (h : ∀ c ∈ cs, isBlank c = false) (more : List Char) :
      (cs ++ more).dropWhile isBlank = cs ++ more := by
    obtain ⟨c, tail, rfl⟩ := List.exists_cons_of_ne_nil hne
    rw [List.cons_append, List.dropWhile_cons_of_neg]
    simp [h c List.mem_cons_self]
  have reversed : ∀ c ∈ body.reverse, isBlank c = false := fun c hc => h c (List.mem_reverse.mp hc)
  have behind : ∀ c ∈ after.reverse, isBlank c = true := fun c hc => ha c (List.mem_reverse.mp hc)
  have last := first (by simpa using hne) reversed []
  rw [List.append_nil] at last
  rw [trim, trimStart, List.dropWhile_append_of_pos hb, first hne h, trimEnd, List.reverse_append,
    List.dropWhile_append_of_pos behind, last, List.reverse_reverse]

/-- Arithmetic that looks like a number is a whole number with a sign or without, and nothing but
blanks around it. -/
theorem Spells.whole_of_isNumericLiteral {code : String} {level : Precedence} {e : Expression}
    (spells : Spells code level e) (arithmetic : e.IsArithmetic)
    (numeric : isNumericLiteral code = true) :
    ∃ text, IsWholeNumeral text ∧
      (trim code.toList = text.toList ∧ e = .numeral text ∨
        trim code.toList = '-' :: text.toList ∧ e = .prefixed .minus (.numeral text)) := by
  obtain ⟨before, sign, digits, rest, whole, hb, hs, hne, hd, hr⟩ :=
    exists_of_isNumericLiteral numeric (isArithmeticChar_of_spells spells arithmetic)
  have derives := spells.derives
  rw [whole, lex_blanks hb] at derives
  rcases hr with blank | ⟨more, rfl⟩
  · have stop : ∀ c ∈ rest.head?, isAsciiDigit c = false ∧ c ≠ '.' := by
      intro c hc
      rw [blank c (List.mem_of_mem_head? hc)]
      decide
    obtain ⟨signs, signed, tokens⟩ := lex_sign_digits hs hne hd stop
    have ends : lex rest = [] := by
      have := lex_blanks blank []
      rwa [List.append_nil, lex] at this
    rw [tokens, ends] at derives
    have trimmed : trim code.toList = sign ++ digits := by
      have blanks (cs : List Char) (h : ∀ c ∈ cs, c = ' ') : ∀ c ∈ cs, isBlank c = true := by
        intro c hc
        rw [h c hc]
        decide
      rw [whole, ← List.append_assoc sign]
      apply trim_between (blanks before hb) (blanks rest blank) (by simp [hne])
      rw [List.forall_mem_append]
      refine ⟨?_, fun c hc => isBlank_of_isAsciiDigit (hd c hc)⟩
      rcases hs with rfl | rfl
      · exact List.forall_mem_nil _
      · exact List.forall_mem_singleton.mpr (by decide)
    rcases signed with ⟨rfl, rfl⟩ | ⟨rfl, rfl⟩
    · obtain rfl := derives.unique (.numeral (String.ofList digits))
      cases arithmetic with
      | numeral known =>
          exact ⟨_, known, .inl ⟨by simpa using trimmed, rfl⟩⟩
    · have operand := Derives.numeral (String.ofList digits)
      obtain rfl := derives.unique (.prefixed .minus (operand.mono (by decide)))
      cases arithmetic with
      | negation operand =>
          cases operand with
          | numeral known =>
              exact ⟨_, known, .inr ⟨by simpa using trimmed, rfl⟩⟩
  · -- An exponent is a word behind the numeral.
    have stop : ∀ c ∈ ('e' :: more).head?, isAsciiDigit c = false ∧ c ≠ '.' := by
      simp [isAsciiDigit]
    obtain ⟨signs, signed, tokens⟩ := lex_sign_digits hs hne hd stop
    have word : lex ('e' :: more) = .word (String.ofList ('e' :: more.takeWhile isNameChar)) ::
        lex (more.dropWhile isNameChar) := by
      rw [lex_cons]
      rfl
    have parsed := derives.parse
    rw [tokens, word, parse_numeral_word] at parsed
    · cases parsed
    · rcases signed with ⟨-, h⟩ | ⟨-, h⟩
      · exact .inl h
      · exact .inr h

end BlockScript
