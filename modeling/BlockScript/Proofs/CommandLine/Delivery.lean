import Mathlib.Data.List.Forall2
import BlockScript.Proofs.CommandLine.Hosts
import BlockScript.Proofs.CommandLine.Requests

/-! # What a run delivers

A run writes nothing before it has a program. Then it writes the parts of the program, if they are
asked for, and after them its source. Each stage is announced when it begins, so that the numbers
on the lines count up to the total. -/

namespace BlockScript.CommandLine

variable {S F : Type}

namespace Arguments

/-! ### Announcements -/

theorem length_stages (a : Arguments) :
    a.stages.length = 4 + if a.definitionsJson.isSome then 1 else 0 := by
  unfold stages
  split <;> rfl

theorem nodup_stages (a : Arguments) : a.stages.Nodup := by
  unfold stages lastStage
  split <;> split <;> decide

/-- The line that shows a number, the total and the stage that has the number. -/
def announcement (a : Arguments) (number : Nat) : String :=
  match a.stages[number - 1]? with
  | none => ""
  | some stage =>
      "[Generate] " ++ stage.label ++ "... (" ++ toString number ++ "/" ++
        toString a.stages.length ++ ") " ++ Progress.bar number a.stages.length ++ "\n"

/-- The lines of so many stages in order, from the one with a number on. -/
def progress (a : Arguments) (first count : Nat) : String :=
  String.join ((List.range' first count).map a.announcement)

theorem announcement_of_stage {a : Arguments} {i : Nat} {stage : Stage}
    (at_i : a.stages[i]? = some stage) : Progress.line a stage = a.announcement (i + 1) := by
  obtain ⟨bound, here⟩ := List.getElem?_eq_some_iff.mp at_i
  have number : a.stageNumber stage = i + 1 := by
    rw [stageNumber, ← here, a.nodup_stages.idxOf_getElem i bound]
  unfold Progress.line announcement
  dsimp only
  rw [number, Nat.add_sub_cancel, at_i]

@[simp] theorem progress_zero (a : Arguments) (first : Nat) : a.progress first 0 = "" := rfl

/-- One more stage is announced behind the others. -/
theorem progress_succ (a : Arguments) (first count : Nat) :
    a.progress first (count + 1) = a.progress first count ++ a.announcement (first + count) := by
  simp [progress, List.range'_concat, String.join_append]

/-! ### The program of a run -/

/-- The path of the input, or why there is none. -/
inductive Input (fs : FileSystem F) (a : Arguments) (files : F) : Except RunError String → Prop
  | missing (noFile : fs.IsFile files a.input false) :
      Input fs a files (.error (.inputNotFound a.input))
  | found {path : Except FileError String} (isFile : fs.IsFile files a.input true)
      (full : fs.FullPath files a.input path) : Input fs a files (path.mapError .unresolved)

/-- The options under the flags, which are the usual ones or those of a file, or why there are
none. -/
inductive Base (fs : FileSystem F) (a : Arguments) (files : F) : Except RunError Options → Prop
  | usual (none : a.config = none) : Base fs a files (.ok {})
  | unreadable {path : String} {e : FileError} (asked : a.config = some path)
      (read : fs.Text files path (.error e)) : Base fs a files (.error (.configUnreadable path e))
  | invalid {path text : String} (asked : a.config = some path)
      (read : fs.Text files path (.ok text)) (parsed : Options.ofJson? text = none) :
      Base fs a files (.error (.configInvalid path))
  | valid {path text : String} {base : Options} (asked : a.config = some path)
      (read : fs.Text files path (.ok text)) (parsed : Options.ofJson? text = some base) :
      Base fs a files (.ok base)

/-- The program for the input, or why there is none, with the number of stages that were begun. -/
inductive Produced (fs : FileSystem F) (a : Arguments) (files : F) :
    Nat → Except RunError Program → Prop
  | noInput {e : RunError} (input : Input fs a files (.error e)) : Produced fs a files 1 (.error e)
  | noOptions {path : String} {e : RunError} (input : Input fs a files (.ok path))
      (base : Base fs a files (.error e)) : Produced fs a files 1 (.error e)
  | unread {path : String} {base : Options} {e : FileError} (input : Input fs a files (.ok path))
      (options : Base fs a files (.ok base)) (read : fs.Text files path (.error e)) :
      Produced fs a files 2 (.error (.unreadable path e))
  | unloaded {path text : String} {base : Options} {format : WorkspaceFormat} {e : LoadError}
      (input : Input fs a files (.ok path)) (options : Base fs a files (.ok base))
      (read : fs.Text files path (.ok text)) (form : a.IsFormat path text format)
      (load : Workspace.load format text = .error e) :
      Produced fs a files 2 (.error (.unloadable path e))
  | generated {path text : String} {base o : Options} {format : WorkspaceFormat}
      {workspace : Workspace} {program : Except GenerateError Program}
      (input : Input fs a files (.ok path)) (options : Base fs a files (.ok base))
      (flags : a.Overrides base o) (read : fs.Text files path (.ok text))
      (form : a.IsFormat path text format) (load : Workspace.load format text = .ok workspace)
      (generated : (Generator.generate { options := o } workspace).1 = program) :
      Produced fs a files 3 (program.mapError .generation)

/-- A program is there when the third stage has begun. -/
theorem Produced.shown_eq_of_ok {fs : FileSystem F} {a : Arguments} {files : F} {shown : Nat}
    {p : Program} (produced : Produced fs a files shown (.ok p)) : shown = 3 := by
  generalize result : (.ok p : Except RunError Program) = r at produced
  cases produced with
  | generated => rfl
  | noInput => cases result
  | noOptions => cases result
  | unread => cases result
  | unloaded => cases result

/-! ### What is written -/

/-- An entry of a table as an object. -/
def IsEntry (e : String × String) (v : Json.Value) : Prop :=
  v = .object [("key", .string e.1), ("code", .string e.2)]

/-- The parts of a program as JSON: its imports and its definitions in order, and its body. -/
def IsPartsText (p : Program) (text : String) : Prop :=
  ∃ imports definitions : List Json.Value, p.imports.Forall₂ IsEntry imports ∧
    p.definitions.Forall₂ IsEntry definitions ∧
    text = (Json.Value.object [("imports", .array imports), ("definitions", .array definitions),
      ("body", .string p.body)]).pretty 0

theorem isPartsText_partsJson (p : Program) : IsPartsText p ((partsJson p).pretty 0) := by
  have entries (t : Table String) : List.Forall₂ IsEntry t
      (t.map fun e => .object [("key", .string e.1), ("code", .string e.2)]) :=
    List.forall₂_map_right_iff.mpr (List.forall₂_same.mpr fun _ _ => rfl)
  exact ⟨_, _, entries p.imports, entries p.definitions, rfl⟩

/-- The files after the parts of a program have been written, if that is asked for. -/
def PartsWritten (fs : FileSystem F) (a : Arguments) (p : Program) (before after : F) : Prop :=
  match a.definitionsJson with
  | none => after = before
  | some path => ∃ text, IsPartsText p text ∧ fs.Written before path text (.ok ()) after

/-- The notes of a run that has a program and gets to the stage with a number. -/
def notes (a : Arguments) (p : Program) (reached : Nat) : String :=
  a.progress 1 3 ++ String.join (p.errors.map warning) ++ a.progress 4 (reached - 3)

theorem notes_three (a : Arguments) (p : Program) :
    a.notes p 3 = a.progress 1 3 ++ String.join (p.errors.map warning) := by
  simp [notes]

/-- How a run ends that has a program, from the scene that it began in. -/
inductive Delivered (fs : FileSystem F) (a : Arguments) (p : Program) (σ : Scene F) :
    Except RunError Unit → Scene F → Prop
  | noParts {path text : String} {e : FileError} {files : F}
      (asked : a.definitionsJson = some path) (parts : IsPartsText p text)
      (write : fs.Written σ.files path text (.error e) files) :
      Delivered fs a p σ (.error (.unwritable path e)) ((σ.note (a.notes p 4)).withFiles files)
  | written {path : String} {answer : Except FileError Unit} {files after : F}
      (parts : PartsWritten fs a p σ.files files) (asked : a.output = some path)
      (write : fs.Written files path p.source answer after) :
      Delivered fs a p σ (answer.mapError (.unwritable path))
        ((σ.note (a.notes p a.stages.length)).withFiles after)
  | printed {files : F} (parts : PartsWritten fs a p σ.files files) (asked : a.output = none) :
      Delivered fs a p σ (.ok ())
        (((σ.note (a.notes p a.stages.length)).withFiles files).print (p.source ++ "\n"))

end Arguments

/-! ### The steps of a run -/

section Steps
open Arguments
variable {h : Host (StateM S)} {fs : FileSystem F} {scene : S → Scene F} (a : Arguments)
include a

/-- The next announcement goes behind those that were made before. -/
theorem Host.Serves.ends_announce (serves : h.Serves fs scene) {n : Nat} {stage : Stage}
    (next : a.stages[n]? = some stage) (first count : Nat) (last : first + count = n + 1)
    (σ : Scene F) (said : String) :
    Ends scene (announce h a stage) (σ.note (said ++ a.progress first count)) fun r τ =>
      r = .ok () ∧ τ = σ.note (said ++ a.progress first (count + 1)) := by
  refine (serves.ends_note _ _).mono ?_
  rintro r τ ⟨rfl, rfl⟩
  refine ⟨rfl, ?_⟩
  rw [Scene.note_note, announcement_of_stage next, progress_succ, last, String.append_assoc]

theorem Host.Serves.ends_resolveInput (serves : h.Serves fs scene) (σ : Scene F) :
    Ends scene (resolveInput h a) σ fun r τ => a.Input fs σ.files r ∧ τ = σ := by
  refine (serves.ends_isFile a.input σ).bind ?_ (by rintro e τ ⟨answer, ⟨⟩, -⟩)
  rintro answer τ ⟨_, ⟨⟩, isFile, rfl⟩
  cases answer with
  | false => exact Ends.throw _ ⟨.missing isFile, rfl⟩
  | true =>
      refine (serves.ends_fullPath a.input .unresolved _).mono ?_
      rintro r τ ⟨path, rfl, full, rfl⟩
      exact ⟨.found isFile full, rfl⟩

theorem Host.Serves.ends_resolveOptions (serves : h.Serves fs scene) (σ : Scene F) :
    Ends scene (resolveOptions h a) σ fun r τ =>
      ∃ base, a.Base fs σ.files base ∧ r = base.map a.override ∧ τ = σ := by
  unfold resolveOptions
  cases config : a.config with
  | none => exact Ends.pure _ ⟨_, .usual config, rfl, rfl⟩
  | some path =>
      have ends : Ends scene (readConfig h path) σ fun r τ => a.Base fs σ.files r ∧ τ = σ := by
        refine (serves.ends_readText path (.configUnreadable path) σ).bind ?_ ?_
        · rintro text τ ⟨_ | _, ⟨⟩, read, rfl⟩
          cases parsed : Options.ofJson? text with
          | some base => exact Ends.pure _ ⟨.valid config read parsed, rfl⟩
          | none => exact Ends.throw _ ⟨.invalid config read parsed, rfl⟩
        · rintro error τ ⟨e | _, ⟨⟩, read, rfl⟩
          exact ⟨.unreadable config read, rfl⟩
      refine ends.bind ?_ ?_
      · rintro base τ ⟨found, rfl⟩
        exact Ends.pure _ ⟨_, found, rfl, rfl⟩
      · rintro e τ ⟨found, rfl⟩
        exact ⟨_, found, rfl, rfl⟩

/-- Up to the program nothing happens but announcements. -/
theorem Host.Serves.ends_produce (serves : h.Serves fs scene) (σ : Scene F) :
    Ends scene (produce h a) σ fun r τ =>
      ∃ shown, a.Produced fs σ.files shown r ∧ τ = σ.note (a.progress 1 shown) := by
  have lines (n : Nat) (stage : Stage) (next : a.stages[n]? = some stage) :
      Ends scene (announce h a stage) (σ.note (a.progress 1 n)) fun r τ =>
        r = .ok () ∧ τ = σ.note (a.progress 1 (n + 1)) := by
    simpa using serves.ends_announce a next 1 n (Nat.add_comm 1 n) σ ""
  have start := lines 0 .resolving rfl
  rw [progress_zero, Scene.note_empty] at start
  refine start.bind ?_ (by rintro e τ ⟨⟨⟩, -⟩)
  rintro - τ ⟨-, rfl⟩
  refine (serves.ends_resolveInput a _).bind ?_ ?noInput
  case noInput =>
    rintro e τ ⟨input, rfl⟩
    exact ⟨1, .noInput input, rfl⟩
  rintro path τ ⟨input, rfl⟩
  refine (serves.ends_resolveOptions a _).bind ?_ ?noOptions
  case noOptions =>
    rintro e τ ⟨_ | _, options, ⟨⟩, rfl⟩
    exact ⟨1, .noOptions input options, rfl⟩
  rintro o τ ⟨_ | base, options, ⟨⟩, rfl⟩
  refine (lines 1 .loading rfl).bind ?_ (by rintro e τ ⟨⟨⟩, -⟩)
  rintro - τ ⟨-, rfl⟩
  refine (serves.ends_readText path _ _).bind ?_ ?unread
  case unread =>
    rintro e τ ⟨_ | _, ⟨⟩, read, rfl⟩
    exact ⟨2, .unread input options read, rfl⟩
  rintro text τ ⟨_ | _, ⟨⟩, read, rfl⟩
  refine (ends_given _ _ _).bind ?_ ?unloaded
  case unloaded =>
    rintro e τ ⟨_ | _, ⟨⟩, load, rfl⟩
    exact ⟨2, .unloaded input options read (a.isFormat_formatOf path text) load, rfl⟩
  rintro workspace τ ⟨_ | _, ⟨⟩, load, rfl⟩
  refine (lines 2 .generating rfl).bind ?_ (by rintro e τ ⟨⟨⟩, -⟩)
  rintro - τ ⟨-, rfl⟩
  refine (ends_given _ _ _).mono ?_
  rintro r τ ⟨program, rfl, generated, rfl⟩
  exact ⟨3, .generated input options (a.overrides_override base) read
    (a.isFormat_formatOf path text) load generated, rfl⟩

omit a in
/-- There is a line for each error that a comment stands for. -/
theorem Host.Serves.ends_warnings (serves : h.Serves fs scene) (errors : List GenerateError)
    (σ : Scene F) :
    Ends scene (errors.forM fun error => liftM (h.note (warning error))) σ fun r τ =>
      r = .ok () ∧ τ = σ.note (String.join (errors.map warning)) := by
  induction errors generalizing σ with
  | nil => exact Ends.pure _ ⟨rfl, σ.note_empty.symm⟩
  | cons error rest ih =>
      refine (serves.ends_note (warning error) σ).bind ?_ (by rintro e τ ⟨⟨⟩, -⟩)
      rintro - τ ⟨-, rfl⟩
      refine (ih _).mono ?_
      rintro r τ ⟨rfl, rfl⟩
      exact ⟨rfl, by simp⟩

/-- The parts of a program are written, or nothing is left to do. -/
theorem Host.Serves.ends_writeDefinitions (serves : h.Serves fs scene) (p : Program)
    (σ : Scene F) : Ends scene (writeDefinitions h a p) (σ.note (a.notes p 3)) fun r τ =>
      (∃ files, r = .ok () ∧ a.PartsWritten fs p σ.files files ∧
        τ = (σ.note (a.notes p (a.stages.length - 1))).withFiles files) ∨
      ∃ path e files, a.definitionsJson = some path ∧
        fs.Written σ.files path ((partsJson p).pretty 0) (.error e) files ∧
        r = .error (.unwritable path e) ∧ τ = (σ.note (a.notes p 4)).withFiles files := by
  unfold writeDefinitions
  have total := a.length_stages
  cases asked : a.definitionsJson with
  | none =>
      rw [asked] at total
      refine Ends.pure _ (.inl ⟨σ.files, rfl, ?_, ?_⟩)
      · rw [PartsWritten, asked]
      · rw [total]
        rfl
  | some path =>
      rw [asked] at total
      have next : a.stages[3]? = some .writingDefinitions := by
        simp [stages, asked]
      refine (serves.ends_announce a next 4 0 rfl σ _).bind ?_ (by rintro e τ ⟨⟨⟩, -⟩)
      rintro - τ ⟨-, rfl⟩
      refine (serves.ends_writeText path _ _ _).mono ?_
      rintro r τ ⟨answer, files, rfl, written, rfl⟩
      cases answer with
      | ok _ =>
          refine .inl ⟨files, rfl, ?_, ?_⟩
          · rw [PartsWritten, asked]
            exact ⟨_, isPartsText_partsJson p, written⟩
          · rw [total]
            rfl
      | error e => exact .inr ⟨path, e, files, rfl, written, rfl, rfl⟩

/-- The script is written to the output or printed. -/
theorem Host.Serves.ends_deliver (serves : h.Serves fs scene) {p : Program} {σ : Scene F}
    {files : F} (parts : a.PartsWritten fs p σ.files files) :
    Ends scene (deliver h a p.source)
      ((σ.note (a.notes p (a.stages.length - 1))).withFiles files) (a.Delivered fs p σ) := by
  have total := a.length_stages
  have last : a.stages[a.stages.length - 1]? = some a.lastStage := by
    rw [← List.getLast?_eq_getElem?, stages, List.getLast?_concat]
  have announced : Ends scene (announce h a a.lastStage)
      ((σ.note (a.notes p (a.stages.length - 1))).withFiles files) fun r τ =>
        r = .ok () ∧ τ = (σ.note (a.notes p a.stages.length)).withFiles files := by
    refine (serves.ends_announce a last 4 (a.stages.length - 4) (by omega) (σ.withFiles files)
      _).mono ?_
    rintro r τ ⟨rfl, rfl⟩
    have more : a.stages.length - 4 + 1 = a.stages.length - 3 := by omega
    refine ⟨rfl, ?_⟩
    rw [more]
    rfl
  unfold deliver
  refine announced.bind ?_ (by rintro e τ ⟨⟨⟩, -⟩)
  rintro - τ ⟨-, rfl⟩
  cases asked : a.output with
  | some path =>
      refine (serves.ends_writeText path p.source _ _).mono ?_
      rintro r τ ⟨answer, after, rfl, written, rfl⟩
      exact .written parts asked written
  | none =>
      refine (serves.ends_print _ _).mono ?_
      rintro r τ ⟨rfl, rfl⟩
      exact .printed parts asked

/-- A run that finds no program ends with the reason, and all that can be seen of it are the
announcements up to there. Any other run writes and prints what is asked for, and that is made from
the program for its input. -/
theorem run_delivers (serves : h.Serves fs scene) (s : S) :
    (∃ shown e, a.Produced fs (scene s).files shown (.error e) ∧
      ((run h a).run.run s).1 = .error e ∧
      scene ((run h a).run.run s).2 = (scene s).note (a.progress 1 shown)) ∨
    ∃ p, a.Produced fs (scene s).files 3 (.ok p) ∧
      a.Delivered fs p (scene s) ((run h a).run.run s).1 (scene ((run h a).run.run s).2) := by
  refine (?_ : Ends scene (run h a) (scene s) fun r τ =>
    (∃ shown e, a.Produced fs (scene s).files shown (.error e) ∧ r = .error e ∧
      τ = (scene s).note (a.progress 1 shown)) ∨
    ∃ p, a.Produced fs (scene s).files 3 (.ok p) ∧ a.Delivered fs p (scene s) r τ) s rfl
  refine (serves.ends_produce a _).bind ?_ ?stopped
  case stopped =>
    rintro e τ ⟨shown, reason, rfl⟩
    exact .inl ⟨shown, e, reason, rfl, rfl⟩
  rintro p τ ⟨shown, produced, rfl⟩
  obtain rfl := produced.shown_eq_of_ok
  refine (serves.ends_warnings p.errors _).bind ?_ (by rintro e τ ⟨⟨⟩, -⟩)
  rintro - τ ⟨-, rfl⟩
  rw [Scene.note_note, ← notes_three]
  refine (serves.ends_writeDefinitions a p _).bind ?_ ?noParts
  case noParts =>
    rintro e τ (⟨files, ⟨⟩, -⟩ | ⟨path, e, files, asked, write, ⟨⟩, rfl⟩)
    exact .inr ⟨p, produced, .noParts asked (isPartsText_partsJson p) write⟩
  rintro - τ (⟨files, -, parts, rfl⟩ | ⟨path, e, files, -, -, ⟨⟩, -⟩)
  refine (serves.ends_deliver a parts).mono ?_
  intro r τ delivered
  exact .inr ⟨p, produced, delivered⟩

end Steps

/-- A workspace with one print, and options in a file. -/
def configuredFiles : FileTree where
  entries :=
    [(["print.json"], .file (some ("\x7b\"blocks\": \x7b\"blocks\": " ++
        "[\x7b\"type\": \"text_print\", \"id\": \"p\"\x7d]\x7d\x7d"))),
      (["options.json"], .file (some "\x7b\"statement_prefix\": \"at(%1);\\n\"\x7d"))]

/-- Arguments that ask for both files and set one more option. -/
def configuredArguments : Arguments where
  input := "print.json"
  output := some "print"
  config := some "options.json"
  statementSuffix := some "done();\\n"
  definitionsJson := some "parts.json"

/-- Options from a file and from a flag, a program with its parts, and five stages. -/
theorem run_delivers_configured :
    let a := configuredArguments
    let w : World := { files := configuredFiles }
    let done := (run World.host a).run.run w
    World.host.Serves FileTree.system World.scene ∧
    (done.2.files.readText "print").toOption = some "at('p');\nprint('');\ndone();\n" ∧
    ∃ p, a.Produced FileTree.system configuredFiles 3 (.ok p) ∧
      a.Delivered FileTree.system p (World.scene w) done.1 (World.scene done.2) := by
  intro a w done
  have ok : done.1.isOk = true := by decide +kernel
  refine ⟨World.host_serves, by decide +kernel, ?_⟩
  rcases run_delivers a World.host_serves w with ⟨shown, e, -, failed, -⟩ | delivered
  · rw [failed] at ok
    cases ok
  · exact delivered

end BlockScript.CommandLine
