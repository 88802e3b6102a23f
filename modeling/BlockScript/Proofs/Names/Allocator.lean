import Mathlib.Data.List.Pairwise
import BlockScript.Proofs.Names.FirstCome

/-! # The allocator of names

Names can be asked for under any strings, in any order, and be forgotten in between. What keeps them
apart is that two records agree with the history: the taken names are those returned since the last
reset, and the remembered ones are the answers to the requests for a variable or procedure. -/

namespace BlockScript.Names

/-! The search for a free candidate. -/

/-- A search for a free candidate that is not bounded: one candidate after the other is tried, from
the `n`-th on, until one is free. -/
inductive Search (occupied : String → Bool) (base : String) : Nat → String → Prop where
  | found {n : Nat} (free : occupied (candidate base n) = false) :
      Search occupied base n (candidate base n)
  | next {n : Nat} {name : String} (taken : occupied (candidate base n) = true)
      (rest : Search occupied base (n + 1) name) : Search occupied base n name

theorem Search.of_first {occupied : String → Bool} {base : String} {i n : Nat} (le : n ≤ i)
    (free : occupied (candidate base i) = false)
    (first : ∀ j, n ≤ j → j < i → occupied (candidate base j) = true) :
    Search occupied base n (candidate base i) := by
  induction h : i - n generalizing n with
  | zero =>
      obtain rfl : n = i := by omega
      exact .found free
  | succ rounds ih =>
      apply Search.next (first n (Nat.le_refl n) (by omega))
      apply ih (by omega)
      · intro j le lt
        exact first j (by omega) lt
      · omega

/-- The search ends, and it ends with the name that is given out. -/
theorem search_fresh (names : Names) (raw : String) :
    Search names.isOccupied (safeName raw) 0 (names.fresh raw) := by
  obtain ⟨i, given, free, first⟩ := names.fresh_eq raw
  rw [given]
  exact .of_first (Nat.zero_le i) free fun j _ lt => first j lt

/-! Sessions. -/

/-- A call for a name. -/
inductive Call where
  | get (category : NameCategory) (raw : String)
  | distinct (category : NameCategory) (raw : String)
deriving DecidableEq, Repr

namespace Call

/-- The name that the user gave. -/
def raw : Call → String
  | .get _ raw => raw
  | .distinct _ raw => raw

/-- A distinct name is the same for every category. -/
def serve (names : Names) : Call → String × Names
  | .get category raw => names.get category raw
  | .distinct _ raw => names.distinct raw

/-- Do two calls ask for one variable or procedure? -/
def Shares (c d : Call) : Prop :=
  ∃ category raw, c = .get category raw ∧ d = .get category raw

theorem Shares.symm {c d : Call} (h : c.Shares d) : d.Shares c := by
  obtain ⟨category, raw, left, right⟩ := h
  exact ⟨category, raw, right, left⟩

/-- A call gives out a new name unless it asks for a variable or procedure that was asked for. -/
def IsNew (call : Call) (earlier : List (Call × String)) : Prop :=
  ∀ answer ∈ earlier, ¬ answer.1.Shares call

/-- Two answers are equal exactly if the calls ask for one variable or procedure. -/
def Distinguishes (a b : Call × String) : Prop := a.2 = b.2 ↔ a.1.Shares b.1

instance : Std.Symm Distinguishes where
  symm a b h := by
    unfold Distinguishes at h ⊢
    rw [eq_comm, h]
    exact ⟨.symm, .symm⟩

end Call

/-- What can be asked of the allocator. -/
inductive Request where
  | call (call : Call)
  | reset
deriving DecidableEq, Repr

/-- The names, and the calls since the last reset with the answers to them. -/
structure Session where
  names : Names := {}
  returned : List (Call × String) := []
deriving DecidableEq, Repr

def Session.serve (session : Session) : Request → Session
  | .call call =>
      let answer := call.serve session.names
      { names := answer.2, returned := session.returned ++ [(call, answer.1)] }
  | .reset => { names := session.names.reset }

/-- The session after requests in a row, of an allocator that starts empty. -/
def run (requests : List Request) : Session := requests.foldl Session.serve {}

theorem run_concat (requests : List Request) (request : Request) :
    run (requests ++ [request]) = (run requests).serve request :=
  List.foldl_concat ..

/-- A reset forgets all that was before it. -/
theorem run_append_reset (requests more : List Request) :
    run (requests ++ .reset :: more) = run more := by
  unfold run
  rw [List.foldl_append, List.foldl_cons]
  rfl

/-- A name that is not reserved and was not returned before. -/
def IsFree (earlier : List (Call × String)) (name : String) : Prop :=
  name ∉ reservedWords ∧ name ∉ earlier.map (·.2)

/-- A name is the first free candidate for what the user gave. -/
def IsFirstFree (earlier : List (Call × String)) (raw name : String) : Prop :=
  ∃ n ≤ earlier.length + reservedWords.length, name = candidate (safeName raw) n ∧
    IsFree earlier name ∧ ∀ k < n, ¬ IsFree earlier (candidate (safeName raw) k)

/-! The records agree with the history. -/

namespace Session

/-- The names that are taken were returned, the names that are remembered are answers, and answers
are names that only calls for one variable or procedure share. -/
structure Agrees (session : Session) : Prop where
  taken : ∀ {name}, name ∈ session.names.taken ↔ name ∈ session.returned.map (·.2)
  known : ∀ {category raw name}, session.names.lookup category raw = some name ↔
    (.get category raw, name) ∈ session.returned
  bounded : session.names.taken.length ≤ session.returned.length
  named : ∀ answer ∈ session.returned,
    isIdentifier answer.2.toList = true ∧ answer.2 ∉ reservedWords
  apart : session.returned.Pairwise Call.Distinguishes

theorem Agrees.empty : Agrees {} where
  taken := Iff.rfl
  known := by simp
  bounded := Nat.le_refl 0
  named := by simp
  apart := .nil

variable {session : Session}

theorem Agrees.isOccupied_eq_false (agrees : session.Agrees) {name : String} :
    session.names.isOccupied name = false ↔ IsFree session.returned name := by
  simp [isOccupied, IsFree, agrees.taken, and_comm]

theorem Agrees.isOccupied_eq_true (agrees : session.Agrees) {name : String} :
    session.names.isOccupied name = true ↔ ¬ IsFree session.returned name := by
  rw [← agrees.isOccupied_eq_false, Bool.not_eq_false]

/-- A fresh name is the first free candidate, found within as many rounds as names are occupied. -/
theorem Agrees.isFirstFree_fresh (agrees : session.Agrees) (raw : String) :
    IsFirstFree session.returned raw (session.names.fresh raw) := by
  obtain ⟨i, given, free, first⟩ := session.names.fresh_eq raw
  obtain ⟨j, le, unoccupied⟩ :=
    exists_candidate_not_mem (session.names.taken ++ reservedWords) (safeName raw)
  have within : i ≤ j := by
    by_contra beyond
    have occupied := first j (by omega)
    simp only [isOccupied, Bool.or_eq_true, List.contains_iff_mem] at occupied
    exact unoccupied (List.mem_append.mpr occupied)
  have bounded := agrees.bounded
  rw [List.length_append] at le
  refine ⟨i, by omega, given, ?_, fun k lt => ?_⟩
  · rw [given]
    exact agrees.isOccupied_eq_false.mp free
  · exact agrees.isOccupied_eq_true.mp (first k lt)

/-- What a call can do: it repeats an answer that is remembered, or gives out a fresh name. -/
theorem Agrees.serve_cases (agrees : session.Agrees) (call : Call) :
    (∃ name, (call, name) ∈ session.returned ∧ call.Shares call ∧
      call.serve session.names = (name, session.names)) ∨
    (call.IsNew session.returned ∧ (call.serve session.names).1 = session.names.fresh call.raw ∧
      (call.serve session.names).2.taken =
        session.names.fresh call.raw :: session.names.taken ∧
      ∀ category raw, (call.serve session.names).2.lookup category raw =
        if call = .get category raw then some (session.names.fresh call.raw)
        else session.names.lookup category raw) := by
  cases call with
  | distinct category raw =>
      refine .inr ⟨?_, rfl, rfl, fun category' raw' => ?_⟩
      · rintro answer - ⟨_, _, -, own⟩
        contradiction
      · rw [if_neg (by exact nofun)]
        rfl
  | get category raw =>
      cases known : session.names.lookup category raw with
      | some name =>
          exact .inl ⟨name, agrees.known.mp known, ⟨category, raw, rfl, rfl⟩, get_of_lookup known⟩
      | none =>
          have served : session.names.get category raw = (session.names.fresh raw,
              ⟨session.names.fresh raw :: session.names.taken,
                ((category, raw), session.names.fresh raw) :: session.names.given⟩) := by
            simp [get, known, distinct]
          refine .inr ⟨?_, congrArg (·.1) served, congrArg (·.2.taken) served, ?_⟩
          · rintro ⟨_, name⟩ mem ⟨_, _, rfl, own⟩
            obtain ⟨rfl, rfl⟩ := Call.get.inj own
            rw [agrees.known.mpr mem] at known
            contradiction
          · intro category' raw'
            simp only [Call.serve, served, lookup_cons, Call.get.injEq, Call.raw]

/-- A repeated answer keeps the records in agreement. -/
theorem Agrees.concat_again (agrees : session.Agrees) {call : Call} {name : String}
    (mem : (call, name) ∈ session.returned) (shares : call.Shares call) :
    Agrees ⟨session.names, session.returned ++ [(call, name)]⟩ where
  taken := by
    intro other
    have known : name ∈ session.returned.map (·.2) := List.mem_map_of_mem mem
    rw [agrees.taken, List.map_append, List.mem_append]
    refine ⟨.inl, Or.rec id fun last => ?_⟩
    rwa [List.mem_singleton.mp last]
  known := by
    intro category raw other
    rw [agrees.known, List.mem_append]
    refine ⟨.inl, Or.rec id fun last => ?_⟩
    rwa [List.mem_singleton.mp last]
  bounded := by
    rw [List.length_append]
    exact Nat.le_add_right_of_le agrees.bounded
  named := by
    intro answer mem'
    rcases List.mem_append.mp mem' with earlier | last
    · exact agrees.named answer earlier
    · rw [List.mem_singleton.mp last]
      exact agrees.named _ mem
  apart := by
    rw [List.pairwise_append]
    refine ⟨agrees.apart, List.pairwise_singleton .., fun answer earlier last mem' => ?_⟩
    rw [List.mem_singleton.mp mem']
    by_cases same : answer = (call, name)
    · rw [same]
      exact iff_of_true rfl shares
    · exact agrees.apart.forall earlier mem same

/-- A new answer keeps the records in agreement. -/
theorem Agrees.concat_new (agrees : session.Agrees) {call : Call} {names : Names}
    (new : call.IsNew session.returned)
    (taken : names.taken = session.names.fresh call.raw :: session.names.taken)
    (lookup : ∀ category raw, names.lookup category raw =
      if call = .get category raw then some (session.names.fresh call.raw)
      else session.names.lookup category raw) :
    Agrees ⟨names, session.returned ++ [(call, session.names.fresh call.raw)]⟩ where
  taken := by
    intro name
    simp [taken, agrees.taken, or_comm]
  known := by
    intro category raw name
    simp only [lookup, List.mem_append, List.mem_singleton, Prod.mk.injEq]
    split
    · next own =>
        have unknown : (Call.get category raw, name) ∉ session.returned :=
          fun earlier => new _ earlier ⟨category, raw, rfl, own⟩
        simp [unknown, own, eq_comm]
    · next other =>
        rw [agrees.known]
        simp [Ne.symm other]
  bounded := by
    simp [taken, agrees.bounded]
  named := by
    intro answer mem
    rcases List.mem_append.mp mem with earlier | last
    · exact agrees.named answer earlier
    · rw [List.mem_singleton.mp last]
      exact ⟨session.names.isIdentifier_fresh _, session.names.fresh_not_mem_reservedWords _⟩
  apart := by
    rw [List.pairwise_append]
    refine ⟨agrees.apart, List.pairwise_singleton .., fun answer earlier last mem => ?_⟩
    rw [List.mem_singleton.mp mem]
    refine iff_of_false (fun same => ?_) (new answer earlier)
    have taken : session.names.fresh call.raw ∈ session.names.taken :=
      agrees.taken.mpr (List.mem_map.mpr ⟨answer, earlier, same⟩)
    exact session.names.fresh_not_mem_taken call.raw taken

/-- Every request keeps the records in agreement. -/
theorem Agrees.serve (agrees : session.Agrees) (request : Request) :
    (session.serve request).Agrees := by
  cases request with
  | reset => exact .empty
  | call call =>
      simp only [Session.serve]
      rcases agrees.serve_cases call with ⟨name, mem, shares, served⟩ |
        ⟨new, given, taken, lookup⟩
      · rw [served]
        exact agrees.concat_again mem shares
      · rw [given]
        exact agrees.concat_new new taken lookup

end Session

theorem agrees_run (requests : List Request) : (run requests).Agrees := by
  induction requests using List.reverseRecOn with
  | nil => exact .empty
  | append_singleton requests request ih =>
      rw [run_concat]
      exact ih.serve request

/-- A call that is new gives out the first free candidate. -/
theorem isFirstFree_of_isNew (requests : List Request) {earlier later : List (Call × String)}
    {call : Call} {name : String}
    (split : (run requests).returned = earlier ++ (call, name) :: later)
    (new : call.IsNew earlier) : IsFirstFree earlier call.raw name := by
  induction requests using List.reverseRecOn generalizing later with
  | nil => simp [run] at split
  | append_singleton requests request ih =>
      rw [run_concat] at split
      cases request with
      | reset => simp [Session.serve] at split
      | call call =>
          cases later using List.reverseRecOn with
          | nil =>
              obtain ⟨rfl, last⟩ := List.append_inj' split rfl
              obtain ⟨rfl, rfl⟩ := Prod.mk.inj (List.singleton_inj.mp last)
              have agrees := agrees_run requests
              rcases agrees.serve_cases call with ⟨_, mem, shares, -⟩ | ⟨-, given, -⟩
              · exact absurd shares (new _ mem)
              · rw [given]
                exact agrees.isFirstFree_fresh call.raw
          | append_singleton later last =>
              rw [← List.cons_append, ← List.append_assoc] at split
              exact ih (List.append_inj' split rfl).1

/-- Whatever is asked of the allocator: a search for a name ends; the names since the last reset are
identifiers and not reserved; two of them are equal exactly if both were asked for as one variable or
procedure; a new name is the first free candidate; and after a reset all is as in the beginning. -/
theorem allocator_serves (requests more : List Request) :
    (∀ raw, Search (run requests).names.isOccupied (safeName raw) 0
      ((run requests).names.fresh raw)) ∧
    (∀ answer ∈ (run requests).returned,
      isIdentifier answer.2.toList = true ∧ answer.2 ∉ reservedWords) ∧
    (run requests).returned.Pairwise Call.Distinguishes ∧
    (∀ earlier call name later, (run requests).returned = earlier ++ (call, name) :: later →
      call.IsNew earlier → IsFirstFree earlier call.raw name) ∧
    run (requests ++ .reset :: more) = run more := by
  have agrees := agrees_run requests
  refine ⟨search_fresh _, agrees.named, agrees.apart, ?_, run_append_reset requests more⟩
  intro earlier call name later split new
  exact isFirstFree_of_isNew requests split new

example : (run [.call (.get .variableName "x 2"), .call (.distinct .procedureName "x_2"),
    .call (.get .variableName "x 2"), .call (.get .procedureName "x_22")]).returned.map (·.2) =
      ["x_2", "x_22", "x_2", "x_222"] := by decide

end BlockScript.Names
