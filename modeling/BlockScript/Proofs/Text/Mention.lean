import BlockScript.Proofs.Text.Replacement
import BlockScript.Template.Routine

/-! # Mentions of modules

Where the name of a module stands in a text. Texts are put together from pieces, and a name can
only come about where one piece meets the next. It does not if the one ends, or the other starts,
with a character that no such name has. -/

namespace BlockScript

/-- The name by which a script refers to a module. -/
def Module.alias : Module → String
  | math => "Math"
  | html => "Html"

/-- The letters of that name. -/
def Module.letters : Module → List Char
  | math => ['M', 'a', 't', 'h']
  | html => ['H', 't', 'm', 'l']

@[simp] theorem Module.toList_alias (m : Module) : m.alias.toList = m.letters := by
  cases m <;> exact String.toList_ofList

theorem Module.forall_iff {p : Module → Prop} : (∀ m, p m) ↔ p .math ∧ p .html := by
  refine ⟨fun h => ⟨h .math, h .html⟩, fun h m => ?_⟩
  cases m with
  | math => exact h.1
  | html => exact h.2

instance {p : Module → Prop} [DecidablePred p] : Decidable (∀ m, p m) :=
  decidable_of_iff _ Module.forall_iff.symm

/-- Has the name of a module such a letter? -/
def isAliasLetter (c : Char) : Bool := ['M', 'a', 't', 'h', 'H', 'm', 'l'].contains c

theorem Module.isAliasLetter_of_mem {m : Module} {c : Char} (h : c ∈ m.letters) :
    isAliasLetter c = true := by
  have hall : m.letters.all isAliasLetter = true := by
    cases m <;> decide
  exact List.all_eq_true.mp hall c h

theorem Module.letters_ne_nil (m : Module) : m.letters ≠ [] := by
  cases m <;> exact List.cons_ne_nil _ _

/-! Words of such letters. -/

/-- A word, and not the empty one, of letters that names of modules have. -/
def IsAliasWord (w : List Char) : Prop := w ≠ [] ∧ ∀ c ∈ w, isAliasLetter c = true

theorem Module.isAliasWord (m : Module) : IsAliasWord m.letters :=
  ⟨m.letters_ne_nil, fun _ => isAliasLetter_of_mem⟩

/-- No character of a text is such a letter. -/
def IsInert (cs : List Char) : Prop := ∀ c ∈ cs, isAliasLetter c = false

section Words
variable {w xs ys cs ds : List Char}

theorem IsInert.of_all (h : cs.all (fun c => !isAliasLetter c) = true) : IsInert cs := by
  intro c hc
  simpa using List.all_eq_true.mp h c hc

theorem IsInert.append (hx : IsInert xs) (hy : IsInert ys) : IsInert (xs ++ ys) := by
  intro c hc
  rcases List.mem_append.mp hc with hc | hc
  · exact hx c hc
  · exact hy c hc

theorem IsAliasWord.not_in_inert (hw : IsAliasWord w) (h : IsInert cs) : ¬ w <:+: cs := by
  intro hin
  obtain ⟨c, rest, rfl⟩ := List.exists_cons_of_ne_nil hw.1
  have hletter := hw.2 c List.mem_cons_self
  have hmem : c ∈ cs := hin.subset List.mem_cons_self
  rw [h c hmem] at hletter
  exact Bool.noConfusion hletter

/-- A word in two joined texts is in one of them, unless letters meet at the border. -/
theorem IsAliasWord.infix_of_append (hw : IsAliasWord w)
    (border : (∀ c ∈ xs.getLast?, isAliasLetter c = false) ∨
      ∀ c ∈ ys.head?, isAliasLetter c = false)
    (h : w <:+: xs ++ ys) : w <:+: xs ∨ w <:+: ys := by
  rcases List.infix_append_iff.mp h with h | h | ⟨u, v, rfl, hu, hv⟩
  · exact .inl h
  · exact .inr h
  · rcases List.eq_nil_or_concat u with rfl | ⟨u, a, rfl⟩
    · exact .inr hv.isInfix
    · cases v with
      | nil =>
          rw [List.append_nil]
          exact .inl hu.isInfix
      | cons b v =>
          -- The word would go over the border, with a letter on either side.
          have ha : isAliasLetter a = true := hw.2 a (by simp)
          have hb : isAliasLetter b = true := hw.2 b (by simp)
          obtain ⟨before, rfl⟩ := hu
          obtain ⟨after, rfl⟩ := hv
          rcases border with border | border
          · have := border a (by simp)
            simp [ha] at this
          · have := border b (by simp)
            simp [hb] at this

/-- One text is another one where characters that are no letters have given way to such. -/
inductive Reworded : List Char → List Char → Prop
  | nil : Reworded [] []
  | keep (c : Char) {cs ds : List Char} (h : Reworded cs ds) : Reworded (c :: cs) (c :: ds)
  | swap {xs ys cs ds : List Char} (hx : IsInert xs) (hy : IsInert ys) (ne : ys ≠ [])
      (h : Reworded cs ds) : Reworded (xs ++ cs) (ys ++ ds)

theorem Reworded.starts_with (h : Reworded cs ds) (hw : ∀ c ∈ w, isAliasLetter c = true)
    (hp : w <+: ds) : w <+: cs := by
  induction h generalizing w with
  | nil => exact hp
  | keep c _ ih =>
      cases w with
      | nil => exact List.nil_prefix
      | cons a w =>
          obtain ⟨rfl, htail⟩ := List.cons_prefix_cons.mp hp
          apply List.cons_prefix_cons.mpr
          exact ⟨rfl, ih (fun c hc => hw c (List.mem_cons_of_mem _ hc)) htail⟩
  | swap hx hy ne _ ih =>
      cases w with
      | nil => exact List.nil_prefix
      | cons a w =>
          obtain ⟨b, ys, rfl⟩ := List.exists_cons_of_ne_nil ne
          obtain ⟨rfl, -⟩ := List.cons_prefix_cons.mp hp
          have hletter := hw a List.mem_cons_self
          rw [hy a List.mem_cons_self] at hletter
          exact Bool.noConfusion hletter

/-- Rewording brings about no word. -/
theorem Reworded.contains (h : Reworded cs ds) (hw : IsAliasWord w) (hin : w <:+: ds) :
    w <:+: cs := by
  induction h with
  | nil => exact hin
  | keep c h ih =>
      rcases List.infix_cons_iff.mp hin with hp | hin
      · exact ((Reworded.keep c h).starts_with hw.2 hp).isInfix
      · exact List.infix_cons (ih hin)
  | @swap xs ys cs ds hx hy ne h ih =>
      have border : ∀ c ∈ ys.getLast?, isAliasLetter c = false :=
        fun c hc => hy c (List.mem_of_getLast? hc)
      rcases hw.infix_of_append (.inl border) hin with hin | hin
      · exact absurd hin (hw.not_in_inert hy)
      · exact (ih hin).trans (List.suffix_append xs cs).isInfix

end Words

/-! How a text is looked at. -/

/-- A text as it is, or with quotes left out. -/
inductive View where
  | whole
  /-- Without double quotes. -/
  | undoubled
  /-- Without quotes of either kind. -/
  | unquoted
deriving DecidableEq, Repr

namespace View

def shows : View → Char → Bool
  | whole, _ => true
  | undoubled, c => c != '"'
  | unquoted, c => !Template.isQuoteMark c

/-- What is seen of a text. -/
def of (v : View) (text : String) : List Char := text.toList.filter v.shows

@[simp] theorem of_append (v : View) (a b : String) : v.of (a ++ b) = v.of a ++ v.of b := by
  simp [of]

@[simp] theorem of_empty (v : View) : v.of "" = [] := by
  simp [of]

@[simp] theorem whole_of (text : String) : whole.of text = text.toList :=
  List.filter_eq_self.mpr fun _ _ => rfl

theorem shows_of_isAliasLetter (v : View) {c : Char} (h : isAliasLetter c = true) :
    v.shows c = true := by
  have hquote : Template.isQuoteMark c = false := by
    rw [Bool.eq_false_iff]
    intro hc
    simp only [Template.isQuoteMark, Bool.or_eq_true, beq_iff_eq] at hc
    rcases hc with rfl | rfl <;> exact absurd h (by decide)
  cases v with
  | whole => rfl
  | undoubled =>
      simp only [Template.isQuoteMark, Bool.or_eq_false_iff] at hquote
      simp [shows, bne, hquote.1]
  | unquoted => simp [shows, hquote]

/-- What is seen without quotes is seen in every view. -/
theorem unquoted_shows_and (v : View) (c : Char) :
    (unquoted.shows c && v.shows c) = unquoted.shows c := by
  cases v with
  | whole => simp [shows]
  | undoubled => by_cases hc : c = '"' <;> simp [shows, Template.isQuoteMark, hc]
  | unquoted => simp

/-- Without quotes, less is seen than in any view. -/
theorem unquoted_of (v : View) (text : String) :
    unquoted.of text = (v.of text).filter unquoted.shows := by
  rw [of, of, List.filter_filter]
  exact List.filter_congr fun c _ => (v.unquoted_shows_and c).symm

/-- Of a text that has lost its quotes, every view shows what was seen without them. -/
theorem of_unquoted (v : View) (text : String) :
    v.of (String.ofList (unquoted.of text)) = unquoted.of text := by
  rw [of, of, String.toList_ofList, List.filter_filter]
  exact List.filter_congr fun c _ => by rw [Bool.and_comm, v.unquoted_shows_and c]

end View

/-- A word of letters stays in a text of which only other characters are left out. -/
theorem IsAliasWord.infix_filter {w cs : List Char} (hw : IsAliasWord w) (v : View)
    (h : w <:+: cs) : w <:+: cs.filter v.shows := by
  have hkept : w.filter v.shows = w :=
    List.filter_eq_self.mpr fun c hc => v.shows_of_isAliasLetter (hw.2 c hc)
  rw [← hkept]
  exact h.filter v.shows

/-! Texts that mention only some modules. -/

/-- The modules that are mentioned in what is seen of a text are among some. -/
def MentionsOnly (F : Module → Prop) (v : View) (text : String) : Prop :=
  ∀ m : Module, m.letters <:+: v.of text → F m

/-- No letter of a name stands at the start. -/
def startsApart (cs : List Char) : Bool := cs.head?.all fun c => !isAliasLetter c

/-- No letter of a name stands at the end. -/
def endsApart (cs : List Char) : Bool := cs.getLast?.all fun c => !isAliasLetter c

/-- Do characters mention no modules but some? If so asked, any text may go in front of them, and
any text behind them. -/
def joins (front back : Bool) (known : List Module) (cs : List Char) : Bool :=
  ([Module.math, .html].all fun m => known.contains m || !Text.holdsText m.letters cs) &&
    (!front || startsApart cs) && (!back || endsApart cs) && (!(front && back) || !cs.isEmpty)

/-- Does a text mention no modules but some? -/
abbrev isPlain (known : List Module) (text : String) : Bool :=
  joins false false known (View.unquoted.of text)

/-- May any text go in front of this one? -/
abbrev isEnding (known : List Module) (text : String) : Bool :=
  joins true false known (View.unquoted.of text)

/-- May any text go behind this one? -/
abbrev isOpening (known : List Module) (text : String) : Bool :=
  joins false true known (View.unquoted.of text)

/-- May any texts go around this one? -/
abbrev isSpacer (known : List Module) (text : String) : Bool :=
  joins true true known (View.unquoted.of text)

/-- A literal is checked by its characters. -/
theorem joins_of_chars {front back : Bool} {known : List Module} {text : String} {cs : List Char}
    (literal : text = String.ofList cs)
    (h : joins front back known (cs.filter View.unquoted.shows) = true) :
    joins front back known (View.unquoted.of text) = true := by
  rwa [literal, View.of, String.toList_ofList]

theorem joins_iff {front back : Bool} {known : List Module} {cs : List Char} :
    joins front back known cs = true ↔
      (∀ m, m ∈ known ∨ ¬ m.letters <:+: cs) ∧ (front = true → startsApart cs = true) ∧
        (back = true → endsApart cs = true) ∧ (front = true → back = true → cs ≠ []) := by
  rw [Module.forall_iff]
  cases front <;> cases back <;>
    simp [joins, Text.holdsText_iff, ← Bool.not_eq_true, and_assoc]

/-- What a text without quotes starts with, it starts with in every view, unless it is a quote. -/
theorem startsApart_of_unquoted (v : View) {text : String}
    (h : startsApart (View.unquoted.of text) = true) : startsApart (v.of text) = true := by
  rw [View.unquoted_of v] at h
  cases hv : v.of text with
  | nil => rfl
  | cons c rest =>
      cases hl : isAliasLetter c with
      | false => simp [startsApart, hl]
      | true =>
          rw [hv, List.filter_cons_of_pos (View.shows_of_isAliasLetter _ hl)] at h
          simp [startsApart, hl] at h

theorem endsApart_of_unquoted (v : View) {text : String}
    (h : endsApart (View.unquoted.of text) = true) : endsApart (v.of text) = true := by
  rw [View.unquoted_of v] at h
  rcases List.eq_nil_or_concat (v.of text) with hv | ⟨front, c, hv⟩
  · rw [hv]
    rfl
  · rw [List.concat_eq_append] at hv
    cases hl : isAliasLetter c with
    | false => simp [endsApart, hv, hl]
    | true =>
        rw [hv, List.filter_append,
          List.filter_cons_of_pos (View.shows_of_isAliasLetter _ hl)] at h
        simp [endsApart, hl] at h

namespace MentionsOnly
variable {F G : Module → Prop} {v : View} {a b text : String} {known : List Module}

theorem mono (h : MentionsOnly F v text) (le : ∀ m, F m → G m) : MentionsOnly G v text :=
  fun m hm => le m (h m hm)

/-- Where every module may be mentioned, every text is fine. -/
theorem of_all (all : ∀ m, F m) (v : View) (text : String) : MentionsOnly F v text :=
  fun m _ => all m

/-- What mentions some modules without quotes mentions no others in any view. -/
theorem view (h : MentionsOnly F .unquoted text) (v : View) : MentionsOnly F v text := by
  intro m hm
  apply h m
  rw [View.unquoted_of v]
  exact m.isAliasWord.infix_filter .unquoted hm

/-- What is mentioned by a text as it is, is seen of it in every view. -/
theorem to_whole (h : MentionsOnly F v text) : MentionsOnly F .whole text := by
  intro m hm
  apply h m
  rw [View.whole_of] at hm
  exact m.isAliasWord.infix_filter v hm

@[simp] theorem empty : MentionsOnly F v "" := by
  intro m hm
  rw [View.of_empty, List.infix_nil] at hm
  exact absurd hm m.letters_ne_nil

/-- A text whose mentions are known. -/
theorem of_isPlain (allowed : ∀ m ∈ known, F m) (h : isPlain known text = true) :
    MentionsOnly F v text := by
  refine MentionsOnly.view (fun m hm => ?_) v
  rcases (joins_iff.mp h).1 m with hk | hn
  · exact allowed m hk
  · exact absurd hm hn

/-- Names do not reach over a border with no letter on one side. -/
theorem append_iff (border : endsApart (v.of a) = true ∨ startsApart (v.of b) = true) :
    MentionsOnly F v (a ++ b) ↔ MentionsOnly F v a ∧ MentionsOnly F v b := by
  constructor
  · intro h
    constructor
    · intro m hm
      apply h m
      rw [View.of_append]
      exact hm.trans (List.prefix_append _ _).isInfix
    · intro m hm
      apply h m
      rw [View.of_append]
      exact hm.trans (List.suffix_append _ _).isInfix
  · rintro ⟨ha, hb⟩ m hm
    rw [View.of_append] at hm
    have border' : (∀ c ∈ (v.of a).getLast?, isAliasLetter c = false) ∨
        ∀ c ∈ (v.of b).head?, isAliasLetter c = false := by
      refine border.imp (fun h c hc => ?_) fun h c hc => ?_
      · simpa [endsApart, Option.all, Option.mem_def.mp hc] using h
      · simpa [startsApart, Option.all, Option.mem_def.mp hc] using h
    rcases m.isAliasWord.infix_of_append border' hm with hm | hm
    · exact ha m hm
    · exact hb m hm

theorem append_ending (allowed : ∀ m ∈ known, F m) (h : isEnding known b = true) :
    MentionsOnly F v (a ++ b) ↔ MentionsOnly F v a := by
  obtain ⟨plain, starts, -⟩ := joins_iff.mp h
  rw [append_iff (.inr (startsApart_of_unquoted v (starts rfl)))]
  exact and_iff_left (of_isPlain allowed (joins_iff.mpr ⟨plain, nofun, nofun, nofun⟩))

theorem opening_append (allowed : ∀ m ∈ known, F m) (h : isOpening known a = true) :
    MentionsOnly F v (a ++ b) ↔ MentionsOnly F v b := by
  obtain ⟨plain, -, ends, -⟩ := joins_iff.mp h
  rw [append_iff (.inl (endsApart_of_unquoted v (ends rfl)))]
  exact and_iff_right (of_isPlain allowed (joins_iff.mpr ⟨plain, nofun, nofun, nofun⟩))

theorem append_spacer_append {c : String} (allowed : ∀ m ∈ known, F m)
    (h : isSpacer known b = true) :
    MentionsOnly F v (a ++ b ++ c) ↔ MentionsOnly F v a ∧ MentionsOnly F v c := by
  obtain ⟨plain, starts, ends, hne⟩ := joins_iff.mp h
  have hseen : v.of b ≠ [] := by
    intro hnil
    apply hne rfl rfl
    rw [View.unquoted_of v, hnil]
    rfl
  have hends : endsApart (v.of (a ++ b)) = true := by
    have := endsApart_of_unquoted v (ends rfl)
    rw [endsApart, View.of_append, List.getLast?_append, List.getLast?_eq_some_getLast hseen]
    rwa [endsApart, List.getLast?_eq_some_getLast hseen] at this
  have ending : isEnding known b = true := joins_iff.mpr ⟨plain, starts, nofun, nofun⟩
  rw [append_iff (.inl hends), append_ending allowed ending]

/-- What a part of a text mentions, the text does. -/
theorem of_infix {part : String} (h : MentionsOnly F v text) (hin : part.toList <:+: text.toList) :
    MentionsOnly F v part :=
  fun m hm => h m (hm.trans (hin.filter v.shows))

/-- Texts joined by spacers mention what one of them does. -/
theorem intercalate_iff {separator : String} (allowed : ∀ m ∈ known, F m)
    (h : isSpacer known separator = true) (texts : List String) :
    MentionsOnly F v (separator.intercalate texts) ↔ ∀ t ∈ texts, MentionsOnly F v t := by
  induction texts with
  | nil => simp
  | cons first rest ih =>
      cases rest with
      | nil => simp
      | cons second more =>
          rw [String.intercalate_cons_cons, append_spacer_append allowed h, ih]
          exact List.forall_mem_cons.symm

end MentionsOnly

end BlockScript
