import BlockScript.Proofs.Expression.Grammar
import BlockScript.Proofs.Expression.Numeral

/-! # From characters to tokens

The tokens of a text, each as long as it can be. What a piece of a text is read as depends on what
follows it; pieces that are read for themselves, whatever may follow, go together. -/

namespace BlockScript

open Text Names Number

/-- A numeral behind its first digit: digits, and a point if there are digits behind it. -/
def spanNumeral (cs : List Char) : List Char × List Char :=
  match cs.dropWhile isAsciiDigit with
  | '.' :: fraction =>
      if (fraction.takeWhile isAsciiDigit).isEmpty then
        (cs.takeWhile isAsciiDigit, '.' :: fraction)
      else
        (cs.takeWhile isAsciiDigit ++ '.' :: fraction.takeWhile isAsciiDigit,
          fraction.dropWhile isAsciiDigit)
  | rest => (cs.takeWhile isAsciiDigit, rest)

/-- The character that makes another sign of the sign of a prefix operator. -/
def PrefixOperator.clash : PrefixOperator → Char
  | minus => '-'
  | not => '='

/-- Signs of two characters. -/
def doubleSigns : List (Char × Char) :=
  [('&', '&'), ('|', '|'), ('=', '='), ('!', '='), ('<', '='), ('>', '='), ('-', '-'), ('+', '+')]

/-- The token of one character that is neither a digit nor part of a name. -/
def singleSign : Char → Token
  | '(' => .opening
  | ')' => .closing
  | ',' => .comma
  | '.' => .point
  | '?' => .question
  | ':' => .colon
  | c => .operator (String.ofList [c])

/-- The token that starts with a character, and what follows it. -/
def munch (c : Char) (cs : List Char) : Token × List Char :=
  if isAsciiDigit c then
    (.numeral (String.ofList (c :: (spanNumeral cs).1)), (spanNumeral cs).2)
  else if isNameChar c then
    (.word (String.ofList (c :: cs.takeWhile isNameChar)), cs.dropWhile isNameChar)
  else
    match cs with
    | d :: rest =>
        if (c, d) ∈ doubleSigns then (.operator (String.ofList [c, d]), rest)
        else (singleSign c, cs)
    | [] => (singleSign c, [])

theorem length_dropWhile_le (p : Char → Bool) (cs : List Char) :
    (cs.dropWhile p).length ≤ cs.length :=
  (List.dropWhile_suffix p).sublist.length_le

theorem length_spanNumeral_le (cs : List Char) : (spanNumeral cs).2.length ≤ cs.length := by
  have hl := length_dropWhile_le isAsciiDigit cs
  unfold spanNumeral
  split
  · next fraction h =>
      rw [h, List.length_cons] at hl
      split
      · simpa using hl
      · have hf := length_dropWhile_le isAsciiDigit fraction
        dsimp only
        omega
  · exact hl

theorem length_munch_le (c : Char) (cs : List Char) : (munch c cs).2.length ≤ cs.length := by
  unfold munch
  split
  · exact length_spanNumeral_le cs
  · split
    · exact length_dropWhile_le _ cs
    · split
      · split <;> simp
      · simp

/-- A character that no sign of two characters starts with stands for itself. -/
theorem munch_of_single {c : Char} (hd : isAsciiDigit c = false) (hn : isNameChar c = false)
    (h : ∀ d, (c, d) ∉ doubleSigns) (cs : List Char) : munch c cs = (singleSign c, cs) := by
  cases cs with
  | nil => simp [munch, hd, hn]
  | cons d rest => simp [munch, hd, hn, h d]

def lex : List Char → List Token
  | [] => []
  | c :: cs => if c = ' ' then lex cs else (munch c cs).1 :: lex (munch c cs).2
termination_by cs => cs.length
decreasing_by
  · simp
  · have hl := length_munch_le c cs
    simp only [List.length_cons]
    omega

theorem lex_cons (c : Char) (cs : List Char) :
    lex (c :: cs) = if c = ' ' then lex cs else (munch c cs).1 :: lex (munch c cs).2 := by
  rw [lex]

/-- Wherever what follows is as wanted, a piece of code is read as some tokens. -/
def Lexes (follow : List Char → Prop) (code : String) (ts : List Token) : Prop :=
  ∀ rest, follow rest → lex (code.toList ++ rest) = ts ++ lex rest

/-- What follows a piece of code is anything. -/
def Anywhere (_ : List Char) : Prop := True

/-- What follows an expression is a blank, the end of a parenthesis or an argument, or nothing. -/
def Boundary (rest : List Char) : Prop := ∀ c ∈ rest.head?, c = ' ' ∨ c = ')' ∨ c = ','

/-- What follows the sign of an operator. -/
def Spaced (rest : List Char) : Prop := rest.head? = some ' '

namespace Lexes
variable {f g : List Char → Prop} {a b : String} {ts us : List Token}

/-- Two pieces are read one after the other, if the second may follow the first. -/
theorem append (ha : Lexes f a ts) (hb : Lexes g b us)
    (follows : ∀ rest, g rest → f (b.toList ++ rest)) : Lexes g (a ++ b) (ts ++ us) := by
  intro rest h
  calc
    lex ((a ++ b).toList ++ rest) = lex (a.toList ++ (b.toList ++ rest)) := by
      rw [String.toList_append, List.append_assoc]
    _ = ts ++ lex (b.toList ++ rest) := ha _ (follows rest h)
    _ = ts ++ (us ++ lex rest) := by rw [hb rest h]
    _ = ts ++ us ++ lex rest := by rw [List.append_assoc]

theorem mono (ha : Lexes f a ts) (weaker : ∀ rest, g rest → f rest) : Lexes g a ts :=
  fun rest h => ha rest (weaker rest h)

theorem anywhere (ha : Lexes Anywhere a ts) : Lexes f a ts := ha.mono fun _ _ => True.intro

/-- A whole text is read as its tokens. -/
theorem lex_eq (ha : Lexes Boundary a ts) : lex a.toList = ts := by
  have h := ha [] fun _ h => absurd h (by simp)
  simpa [lex] using h

theorem blank : Lexes Anywhere " " [] := by
  intro rest _
  simp [lex_cons]

/-- The sign of an operator between blanks. -/
theorem sign (op : Operator) : Lexes Spaced op.sign [.operator op.sign] := by
  intro rest h
  obtain ⟨tail, rfl⟩ := List.head?_eq_some_iff.mp h
  cases op <;> simp [Operator.sign, lex_cons, munch, isAsciiDigit, isNameChar,
    isAsciiAlphanumeric, doubleSigns, singleSign]

/-- The sign of a prefix operator, unless it runs into what follows. -/
theorem prefixSign (op : PrefixOperator) :
    Lexes (fun rest => rest.head? ≠ some op.clash) op.sign [.operator op.sign] := by
  intro rest h
  cases rest with
  | nil => cases op <;> simp [PrefixOperator.sign, lex_cons, lex, munch, isAsciiDigit,
      isNameChar, isAsciiAlphanumeric, singleSign]
  | cons c tail =>
      cases op <;> simp_all [PrefixOperator.sign, PrefixOperator.clash, lex_cons, munch,
        isAsciiDigit, isNameChar, isAsciiAlphanumeric, doubleSigns, singleSign]

/-- A character that no sign of two characters starts with. -/
theorem single {c : Char} (hd : isAsciiDigit c = false) (hn : isNameChar c = false)
    (hb : c ≠ ' ') (h : ∀ d, (c, d) ∉ doubleSigns) :
    Lexes Anywhere (String.ofList [c]) [singleSign c] := by
  intro rest _
  rw [String.toList_ofList, List.cons_append, List.nil_append, lex_cons, if_neg hb,
    munch_of_single hd hn h]
  rfl

theorem opening : Lexes Anywhere "(" [.opening] :=
  single (c := '(') (by decide) (by decide) (by decide) (by simp [doubleSigns])

theorem closing : Lexes Anywhere ")" [.closing] :=
  single (c := ')') (by decide) (by decide) (by decide) (by simp [doubleSigns])

theorem comma : Lexes Anywhere "," [.comma] :=
  single (c := ',') (by decide) (by decide) (by decide) (by simp [doubleSigns])

theorem point : Lexes Anywhere "." [.point] :=
  single (c := '.') (by decide) (by decide) (by decide) (by simp [doubleSigns])

theorem question : Lexes Anywhere "?" [.question] :=
  single (c := '?') (by decide) (by decide) (by decide) (by simp [doubleSigns])

theorem colon : Lexes Anywhere ":" [.colon] :=
  single (c := ':') (by decide) (by decide) (by decide) (by simp [doubleSigns])

/-! Signs together with the blanks around them. -/

theorem between_blanks (h : Lexes Anywhere a ts) : Lexes Anywhere (" " ++ a ++ " ") ts := by
  have whole := (blank.append h fun _ _ => True.intro).append blank fun _ _ => True.intro
  simpa using whole

theorem spacedQuestion : Lexes Anywhere " ? " [.question] := by
  have text : " ? " = " " ++ "?" ++ " " := by decide
  rw [text]
  exact question.between_blanks

theorem spacedColon : Lexes Anywhere " : " [.colon] := by
  have text : " : " = " " ++ ":" ++ " " := by decide
  rw [text]
  exact colon.between_blanks

theorem commaBlank : Lexes Anywhere ", " [.comma] := by
  have text : ", " = "," ++ " " := by decide
  rw [text]
  exact comma.append blank fun _ _ => True.intro

theorem minusBlank : Lexes Anywhere "- " [.operator "-"] := by
  have text : "- " = PrefixOperator.minus.sign ++ " " := by decide
  rw [text]
  apply (prefixSign .minus).append blank
  simp [PrefixOperator.clash]

/-! Pieces put together. -/

theorem parenthesized (h : Lexes Boundary a ts) :
    Lexes f (Precedence.parenthesized a) (.opening :: (ts ++ [.closing])) := by
  have inner : Lexes f (a ++ ")") (ts ++ [.closing]) := by
    apply h.append closing.anywhere
    intro rest _
    simp [Boundary]
  have whole := opening.append inner fun _ _ => True.intro
  rwa [← String.append_assoc] at whole

theorem infixed (op : Operator) (ha : Lexes Boundary a ts)
    (hb : Lexes Boundary b us) :
    Lexes Boundary (a ++ " " ++ op.sign ++ " " ++ b) (ts ++ .operator op.sign :: us) := by
  have right : Lexes Boundary (" " ++ b) ([] ++ us) := blank.append hb fun _ _ => True.intro
  have behind : Lexes Boundary (op.sign ++ (" " ++ b)) ([.operator op.sign] ++ ([] ++ us)) :=
    (sign op).append right fun _ _ => by simp [Spaced]
  have spaced : Lexes Boundary (" " ++ (op.sign ++ (" " ++ b)))
      ([] ++ ([.operator op.sign] ++ ([] ++ us))) :=
    blank.append behind fun _ _ => True.intro
  have whole := ha.append spaced fun _ _ => by simp [Boundary]
  simpa only [String.append_assoc, List.nil_append, List.singleton_append] using whole

end Lexes

/-! Words and numerals end where the characters that they are made of do. -/

theorem takeWhile_append_eq {p : Char → Bool} {cs rest : List Char} (h : ∀ c ∈ cs, p c = true)
    (stop : ∀ c ∈ rest.head?, p c = false) : (cs ++ rest).takeWhile p = cs := by
  rw [List.takeWhile_append_of_pos h]
  cases rest with
  | nil => simp
  | cons c tail => simp [stop c rfl]

theorem dropWhile_append_eq {p : Char → Bool} {cs rest : List Char} (h : ∀ c ∈ cs, p c = true)
    (stop : ∀ c ∈ rest.head?, p c = false) : (cs ++ rest).dropWhile p = rest := by
  rw [List.dropWhile_append_of_pos h]
  cases rest with
  | nil => rfl
  | cons c tail => simp [stop c rfl]

theorem Boundary.not_isNameChar {rest : List Char} (h : Boundary rest) :
    ∀ c ∈ rest.head?, isNameChar c = false := by
  intro c hc
  rcases h c hc with rfl | rfl | rfl <;> decide

theorem Boundary.not_isAsciiDigit {rest : List Char} (h : Boundary rest) :
    ∀ c ∈ rest.head?, isAsciiDigit c = false := by
  intro c hc
  rcases h c hc with rfl | rfl | rfl <;> decide

theorem Boundary.ne_point {rest : List Char} (h : Boundary rest) (tail : List Char) :
    rest ≠ '.' :: tail := by
  rintro rfl
  have hc := h '.' rfl
  simp at hc

theorem ne_blank_of_isNameChar {c : Char} (h : isNameChar c = true) : c ≠ ' ' := by
  rintro rfl
  exact absurd h (by decide)

/-- An identifier is one word. -/
theorem Lexes.word {f : List Char → Prop} {text : String} (h : isIdentifier text.toList = true)
    (stop : ∀ rest, f rest → ∀ c ∈ rest.head?, isNameChar c = false) :
    Lexes f text [.word text] := by
  intro rest hf
  obtain ⟨⟨c, tail, hcs, hc⟩, hall⟩ := (isIdentifier_iff _).mp h
  rw [hcs] at hall ⊢
  have hname : isNameChar c = true := hall c List.mem_cons_self
  have htail : ∀ d ∈ tail, isNameChar d = true := fun d hd => hall d (List.mem_cons_of_mem _ hd)
  rw [List.cons_append, lex_cons, if_neg (ne_blank_of_isNameChar hname)]
  have token : munch c (tail ++ rest) = (.word text, rest) := by
    simp only [munch, hc, hname, Bool.false_eq_true, if_false, if_true]
    rw [takeWhile_append_eq htail (stop rest hf), dropWhile_append_eq htail (stop rest hf), ← hcs,
      String.ofList_toList]
  rw [token]
  rfl

theorem Lexes.word_before (text : String) (c : Char) (h : isIdentifier text.toList = true)
    (hc : isNameChar c = false) : Lexes (fun rest => rest.head? = some c) text [.word text] := by
  apply Lexes.word h
  intro rest hr d hd
  rw [hr] at hd
  rw [← Option.some.inj hd, hc]

/-- A numeral is one token. -/
theorem Lexes.numeral {text : String} (h : IsNumeral text.toList) :
    Lexes Boundary text [.numeral text] := by
  intro rest hb
  obtain ⟨whole, fraction, hne, hall, hcs⟩ := h
  obtain ⟨c, tail, rfl⟩ := List.exists_cons_of_ne_nil hne
  have hc : isAsciiDigit c = true := hall c List.mem_cons_self
  have htail : ∀ d ∈ tail, isAsciiDigit d = true := fun d hd =>
    hall d (List.mem_cons_of_mem _ (List.mem_append_left _ hd))
  have hfraction : ∀ d ∈ fraction, isAsciiDigit d = true := fun d hd =>
    hall d (List.mem_append_right _ hd)
  -- What is behind the first digit is read up to what follows the numeral.
  have token (more : List Char) (hcons : text.toList = c :: more)
      (hspan : spanNumeral (more ++ rest) = (more, rest)) :
      lex (text.toList ++ rest) = [.numeral text] ++ lex rest := by
    rw [hcons, List.cons_append, lex_cons,
      if_neg (ne_blank_of_isNameChar (isNameChar_of_isAsciiDigit hc))]
    simp only [munch, hc, if_true, hspan]
    rw [← hcons, String.ofList_toList]
    rfl
  rcases hcs with hcs | ⟨hfne, hcs⟩
  · apply token tail hcs
    unfold spanNumeral
    rw [takeWhile_append_eq htail hb.not_isAsciiDigit,
      dropWhile_append_eq htail hb.not_isAsciiDigit]
    split
    · next fraction => exact absurd rfl (hb.ne_point fraction)
    · rfl
  · apply token (tail ++ '.' :: fraction) hcs
    have stop : ∀ d ∈ ('.' :: (fraction ++ rest)).head?, isAsciiDigit d = false := by
      intro d hd
      obtain rfl := Option.some.inj hd
      decide
    have hnil : (fraction.isEmpty) = false := by simpa using hfne
    unfold spanNumeral
    rw [List.append_assoc, List.cons_append, takeWhile_append_eq htail stop,
      dropWhile_append_eq htail stop]
    simp only [takeWhile_append_eq hfraction hb.not_isAsciiDigit,
      dropWhile_append_eq hfraction hb.not_isAsciiDigit, hnil, Bool.false_eq_true, if_false]

end BlockScript
