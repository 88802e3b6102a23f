import BlockScript.Definitions
import BlockScript.Proofs.Text.WholeLines

/-! # Nesting

Brackets, literals and comments tell which characters of code belong together. Code is closed if it
closes all brackets, literals and comments that it opens, and has no comma outside of brackets.
Entries of a list that are closed are found again between its commas. -/

namespace BlockScript.Text

/-- What a character of code belongs to. -/
inductive Mode where
  | plain
  /-- Behind a slash, with which a comment may begin. -/
  | slash
  | remark
  /-- In a literal between double quotes, or between single ones. -/
  | literal (double : Bool)
  /-- Behind a backslash in a literal. -/
  | escape (double : Bool)
deriving DecidableEq

/-- The quote around a literal. -/
def quoteMark (double : Bool) : Char := if double then '"' else '\''

/-- A spot in code, with the number of brackets that are open there. -/
structure Spot where
  mode : Mode
  depth : Nat
deriving DecidableEq

namespace Spot

/-- A spot outside of literals and comments. -/
def code (depth : Nat) : Spot := ⟨.plain, depth⟩

/-- The spot behind a character of code. There is none behind a comma outside of brackets and behind
a bracket that closes no other. -/
def behind (depth : Nat) (c : Char) : Option Spot :=
  if c = '(' ∨ c = '[' ∨ c = '\x7b' then some (code (depth + 1))
  else if c = ')' ∨ c = ']' ∨ c = '\x7d' then
    match depth with
    | 0 => none
    | depth + 1 => some (code depth)
  else if c = ',' ∧ depth = 0 then none
  else if c = '"' ∨ c = '\'' then some ⟨.literal (c = '"'), depth⟩
  else if c = '/' then some ⟨.slash, depth⟩
  else some (code depth)

/-- The spot behind a character. -/
def next (s : Spot) (c : Char) : Option Spot :=
  match s.mode with
  | .plain => behind s.depth c
  | .slash => if c = '/' then some ⟨.remark, s.depth⟩ else behind s.depth c
  | .remark => some (if c = '\n' then code s.depth else s)
  | .literal double =>
      some (if c = '\\' then ⟨.escape double, s.depth⟩
        else if c = quoteMark double then code s.depth else s)
  | .escape double => some ⟨.literal double, s.depth⟩

end Spot

/-- The spot behind a text. -/
def walk : Spot → List Char → Option Spot
  | s, [] => some s
  | s, c :: cs => (s.next c).bind fun t => walk t cs

/-- The parts of a text between the characters that lead nowhere, from a spot on. -/
def outerParts : Spot → List Char → List (List Char)
  | _, [] => [[]]
  | s, c :: cs =>
      match s.next c with
      | none => [] :: outerParts (Spot.code 0) cs
      | some t =>
          match outerParts t cs with
          | [] => [[c]]
          | part :: parts => (c :: part) :: parts

/-- A text leads from one spot to another. -/
def Walks (s : Spot) (text : String) (t : Spot) : Prop := walk s text.toList = some t

/-- Code is closed if the spots before and behind it are alike. -/
def IsClosed (code : String) : Prop := ∀ depth, Walks (Spot.code depth) code (Spot.code depth)

section Walk
variable {s t : Spot} {xs ys : List Char} {depth : Nat}

theorem walk_append (s : Spot) (xs ys : List Char) :
    walk s (xs ++ ys) = (walk s xs).bind fun t => walk t ys := by
  induction xs generalizing s with
  | nil => rfl
  | cons c rest ih => simp only [List.cons_append, walk, Option.bind_assoc, ih]

theorem walk_append_of (first : walk s xs = some t) (ys : List Char) :
    walk s (xs ++ ys) = walk t ys := by
  rw [walk_append, first]
  rfl

/-- Text that leads somewhere belongs to one part. -/
theorem outerParts_append (first : walk s xs = some t) (c : Char) (stop : t.next c = none)
    (rest : List Char) :
    outerParts s (xs ++ c :: rest) = xs :: outerParts (Spot.code 0) rest := by
  induction xs generalizing s with
  | nil =>
      obtain rfl := Option.some.inj first
      rw [List.nil_append, outerParts, stop]
  | cons x xs ih =>
      obtain ⟨u, step, later⟩ := Option.bind_eq_some_iff.mp first
      simp only [List.cons_append, outerParts, step, ih later]

theorem outerParts_of_walk (whole : walk s xs = some t) : outerParts s xs = [xs] := by
  induction xs generalizing s with
  | nil => rfl
  | cons x xs ih =>
      obtain ⟨u, step, later⟩ := Option.bind_eq_some_iff.mp whole
      simp only [outerParts, step, ih later]

/-- Characters that mean something in code. -/
def nestingMarks : List Char := ['(', ')', '[', ']', '\x7b', '\x7d', ',', '"', '\'', '/']

/-- A character that means nothing in code. -/
def isOrdinary (c : Char) : Bool := c ∉ nestingMarks

/-- Characters that have something in common with no mark are ordinary. -/
theorem isOrdinary_of {p : Char → Bool} (other : nestingMarks.any p = false) {c : Char}
    (h : p c = true) : isOrdinary c = true := by
  refine decide_eq_true fun mark => ?_
  rw [List.any_eq_true.mpr ⟨c, mark, h⟩] at other
  exact Bool.noConfusion other

theorem behind_of_isOrdinary {c : Char} (h : isOrdinary c = true) (depth : Nat) :
    Spot.behind depth c = some (Spot.code depth) := by
  simp only [isOrdinary, nestingMarks, List.mem_cons, List.not_mem_nil, or_false,
    decide_eq_true_eq, not_or] at h
  simp [Spot.behind, h]

theorem walk_of_isOrdinary (h : ∀ c ∈ xs, isOrdinary c = true) (depth : Nat) :
    walk (Spot.code depth) xs = some (Spot.code depth) := by
  induction xs with
  | nil => rfl
  | cons c rest ih =>
      obtain ⟨first, later⟩ := List.forall_mem_cons.mp h
      rw [walk, Spot.next, Spot.code, behind_of_isOrdinary first]
      exact ih later

theorem walk_remark (h : '\n' ∉ xs) (depth : Nat) :
    walk ⟨.remark, depth⟩ xs = some ⟨.remark, depth⟩ := by
  induction xs with
  | nil => rfl
  | cons c rest ih =>
      obtain ⟨other, later⟩ := not_or.mp (List.mem_cons.not.mp h)
      simp only [walk, Spot.next, if_neg (Ne.symm other), Option.bind_some, ih later]

/-- A mark that indents lines. -/
def IsIndentation (mark : List Char) : Prop := ∀ c ∈ mark, c = ' ' ∨ c = '\t'

instance (mark : List Char) : Decidable (IsIndentation mark) :=
  List.decidableBAll (fun c => c = ' ' ∨ c = '\t') mark

/-- Indentation behind newlines changes nothing. -/
theorem walk_shift {mark : List Char} (blank : IsIndentation mark) (s : Spot) (cs : List Char) :
    walk s (shift mark cs) = walk s cs := by
  -- Behind a newline there is code or a literal, where blanks lead back to the same spot.
  have settled (s : Spot) : ∃ t, s.next '\n' = some t ∧ walk t mark = some t := by
    obtain ⟨t, step, stays⟩ : ∃ t, s.next '\n' = some t ∧
        ∀ c, c = ' ' ∨ c = '\t' → t.next c = some t := by
      obtain ⟨mode, depth⟩ := s
      cases mode with
      | plain => exact ⟨Spot.code depth, rfl, by rintro c (rfl | rfl) <;> rfl⟩
      | slash => exact ⟨Spot.code depth, rfl, by rintro c (rfl | rfl) <;> rfl⟩
      | remark => exact ⟨Spot.code depth, rfl, by rintro c (rfl | rfl) <;> rfl⟩
      | literal double | escape double =>
          refine ⟨⟨.literal double, depth⟩, ?_, ?_⟩
          · cases double <;> rfl
          · cases double <;> rintro c (rfl | rfl) <;> rfl
    refine ⟨t, step, ?_⟩
    clear step
    induction mark with
    | nil => rfl
    | cons c rest ih =>
        obtain ⟨first, later⟩ := List.forall_mem_cons.mp blank
        rw [walk, stays c first]
        exact ih later
  induction cs generalizing s with
  | nil => rfl
  | cons c rest ih =>
      rw [shift_cons]
      split
      · next newline =>
          subst newline
          obtain ⟨t, step, stays⟩ := settled s
          rw [List.cons_append, walk, walk, step, Option.bind_some, Option.bind_some,
            walk_append_of stays, ih]
      · simp only [List.cons_append, List.nil_append, walk, ih]

theorem walk_markTail {mark : List Char} (blank : IsIndentation mark) (s : Spot)
    (cs : List Char) : walk s (markTail mark cs) = walk s cs := by
  rcases List.eq_nil_or_concat cs with rfl | ⟨front, last, rfl⟩
  · rfl
  · have tail : markTail mark [last] = [last] := by simp [markTail]
    rw [List.concat_eq_append, markTail_append _ _ (List.cons_ne_nil _ _), tail, walk_append,
      walk_append, walk_shift blank]

theorem IsIndentation.walk {mark : List Char} (blank : IsIndentation mark) (depth : Nat) :
    walk (Spot.code depth) mark = some (Spot.code depth) :=
  walk_of_isOrdinary (fun c hc => by rcases blank c hc with rfl | rfl <;> decide) depth

theorem IsIndentation.repeated {mark : String} (blank : IsIndentation mark.toList) (n : Nat) :
    IsIndentation (repeated mark n).toList :=
  fun c mem => blank c (mem_of_mem_repeated mem)

end Walk

/-! ### Templates

A template is followed from spot to spot, through its literals and through the closed code between
them. -/

namespace Walks
variable {s t u : Spot} {a b : String} {cs : List Char} {depth : Nat}

theorem start (literal : a = String.ofList cs) (h : walk s cs = some t) : Walks s a t := by
  rw [Walks, literal, String.toList_ofList, h]

theorem append (first : Walks s a t) (second : Walks t b u) : Walks s (a ++ b) u := by
  rw [Walks, String.toList_append, walk_append_of first, second]

theorem text (first : Walks s a t) (literal : b = String.ofList cs) (h : walk t cs = some u) :
    Walks s (a ++ b) u :=
  first.append (.start literal h)

theorem code (first : Walks s a (Spot.code depth)) (closed : IsClosed b) :
    Walks s (a ++ b) (Spot.code depth) :=
  first.append (closed depth)

theorem prefixLines {mark : String} (h : Walks (Spot.code depth) a t)
    (blank : IsIndentation mark.toList) :
    Walks (Spot.code depth) (Text.prefixLines a mark) t := by
  by_cases empty : a = ""
  · rwa [empty, prefixLines_empty, ← empty]
  · rw [Walks, toList_prefixLines empty, walk_append_of (blank.walk depth), walk_markTail blank, h]

/-- A line, and then the lines behind it. -/
theorem line {ls : List String} (first : Walks s a t) (newline : walk t ['\n'] = some u)
    {v : Spot} (rest : Walks u (joinLines (b :: ls)) v) : Walks s (joinLines (a :: b :: ls)) v := by
  have lines : joinLines (a :: b :: ls) = a ++ "\n" ++ joinLines (b :: ls) :=
    String.intercalate_cons_cons
  exact lines ▸ (first.text rfl newline).append rest

/-- Indented lines. -/
theorem indented {mark : String} (h : Walks (Spot.code depth) (a ++ "\n") t)
    (blank : IsIndentation mark.toList) :
    Walks (Spot.code depth) (wholeLines (Text.indented a mark)) t := by
  rw [Text.indented, ← prefixLines_wholeLines fun _ => newline_not_mem_of_mem_lines,
    wholeLines_lines]
  exact h.prefixLines blank

/-- Text on one line goes on with a comment. -/
theorem remark (first : Walks s a ⟨.remark, depth⟩) (h : '\n' ∉ b.toList) :
    Walks s (a ++ b) ⟨.remark, depth⟩ :=
  first.append (walk_remark h depth)

theorem lastLine (h : Walks s a t) : Walks s (joinLines [a]) t := by
  simpa [joinLines] using h

/-- Texts that lead back to a spot, with separators that do. -/
theorem intercalate {separator : String} {texts : List String} (back : Walks s separator s)
    (h : ∀ text ∈ texts, Walks s text s) : Walks s (separator.intercalate texts) s := by
  induction texts with
  | nil => rfl
  | cons first rest ih =>
      obtain ⟨own, others⟩ := List.forall_mem_cons.mp h
      cases rest with
      | nil => simpa using own
      | cons second more =>
          rw [String.intercalate_cons_cons]
          exact (own.append back).append (ih others)

end Walks

/-! ### Closed code -/

namespace IsClosed
variable {a b : String} {cs : List Char}

theorem literal (literal : a = String.ofList cs)
    (h : ∀ depth, walk (Spot.code depth) cs = some (Spot.code depth)) : IsClosed a :=
  fun depth => .start literal (h depth)

theorem of_isOrdinary (h : ∀ c ∈ a.toList, isOrdinary c = true) : IsClosed a :=
  walk_of_isOrdinary h

theorem append (ha : IsClosed a) (hb : IsClosed b) : IsClosed (a ++ b) :=
  fun depth => (ha depth).code hb

theorem intercalate {separator : String} {texts : List String} (hs : IsClosed separator)
    (h : ∀ text ∈ texts, IsClosed text) : IsClosed (separator.intercalate texts) :=
  fun depth => .intercalate (hs depth) fun text ht => h text ht depth

/-- Lines that may end with a comment are closed together if each of them is with its newline. -/
theorem joinLines {texts : List String} (h : ∀ text ∈ texts, IsClosed (text ++ "\n")) :
    IsClosed (Text.joinLines texts ++ "\n") := by
  induction texts with
  | nil =>
      have newline : IsClosed "\n" := .literal rfl fun _ => rfl
      simpa [Text.joinLines] using newline
  | cons first rest ih =>
      obtain ⟨own, others⟩ := List.forall_mem_cons.mp h
      cases rest with
      | nil => simpa [Text.joinLines] using own
      | cons second more =>
          rw [joinLines_cons first (List.cons_ne_nil _ _), String.append_assoc]
          exact own.append (ih others)

end IsClosed

/-- In a literal between single quotes, an escaped text leads to its end. -/
theorem walk_escape (cs : List Char) (depth : Nat) :
    walk ⟨.literal false, depth⟩ (escape cs) = some ⟨.literal false, depth⟩ := by
  induction cs with
  | nil => rfl
  | cons c rest ih =>
      have own : walk ⟨.literal false, depth⟩ (escapeChar c) = some ⟨.literal false, depth⟩ := by
        unfold escapeChar
        split
        · rfl
        · next plain =>
            simp only [needsEscape, Bool.or_eq_true, beq_iff_eq, not_or] at plain
            simp [walk, Spot.next, quoteMark, plain]
      rw [escape_cons, walk_append_of own, ih]

theorem isClosed_quote (text : String) : IsClosed (quote text) := by
  intro depth
  have opened : walk (Spot.code depth) ['\''] = some ⟨.literal false, depth⟩ := rfl
  have chars : (quote text).toList = ['\''] ++ (escape text.toList ++ ['\'']) := toList_quote text
  rw [Walks, chars, walk_append_of opened, walk_append_of (walk_escape text.toList depth)]
  rfl

theorem isClosed_multilineQuote (text : String) : IsClosed (multilineQuote text) := by
  refine IsClosed.intercalate (.literal rfl fun _ => rfl) fun line hl => ?_
  obtain ⟨own, -, rfl⟩ := List.mem_map.mp hl
  exact isClosed_quote own

end BlockScript.Text
