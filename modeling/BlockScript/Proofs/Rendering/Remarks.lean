import Mathlib.Data.List.Basic
import BlockScript.Generator.Remarks
import BlockScript.Proofs.Rendering.Structure
import BlockScript.Proofs.Text.WholeLines

/-! # Comment lines read back

The comment lines of a block are its own comment, and then the comments of its values and of all
below them, line by line behind a mark. A reader who drops the marks gets all lines of these
comments, in order and nothing else. -/

namespace BlockScript

open Text

/-- What starts a line of a doc comment. -/
def docMark : String := "/// "

/-- What starts a line of any other comment. -/
def lineMark : String := "// "

/-- A comment line without its mark. -/
def withoutMark (line : String) : String :=
  let mark := if docMark.toList.isPrefixOf line.toList then docMark else lineMark
  String.ofList (line.toList.drop mark.length)

/-- Only the definitions of procedures and of handlers have doc comments. -/
theorem commentMark_eq (kind : Kind) : commentMark kind =
    if kind ∈ [.proceduresDefReturn, .proceduresDefNoReturn, .widgetsDefReturn,
      .widgetsDefNoReturn] then docMark else lineMark := by
  cases kind <;> rfl

theorem newline_not_mem_commentMark (kind : Kind) : '\n' ∉ (commentMark kind).toList := by
  rw [commentMark_eq]
  split <;> decide

/-- The text behind a doc mark begins after it. -/
theorem withoutMark_docMark (text : String) : withoutMark (docMark ++ text) = text := by
  have marked : docMark.toList.isPrefixOf (docMark ++ text).toList = true := by
    rw [List.isPrefixOf_iff_prefix, String.toList_append]
    exact List.prefix_append _ _
  rw [withoutMark, if_pos marked, String.toList_append, ← String.length_toList, List.drop_left,
    String.ofList_toList]

/-- No text behind another mark makes that a doc mark: their third characters differ. -/
theorem withoutMark_lineMark (text : String) : withoutMark (lineMark ++ text) = text := by
  have unmarked : ¬ docMark.toList.isPrefixOf (lineMark ++ text).toList = true := by
    rw [String.toList_append]
    simp [docMark, lineMark, List.isPrefixOf]
  rw [withoutMark, if_neg unmarked, String.toList_append, ← String.length_toList, List.drop_left,
    String.ofList_toList]

theorem withoutMark_commentMark (kind : Kind) (text : String) :
    withoutMark (commentMark kind ++ text) = text := by
  rw [commentMark_eq]
  split
  · exact withoutMark_docMark text
  · exact withoutMark_lineMark text

/-! ### The comments

They are collected by a recursion of their own over the values, the statements and the next block,
which the walk of the generator is then shown to agree with. -/

/-- A comment that is there and not empty. -/
def shownComment : Option String → List String
  | none => []
  | some text => if text = "" then [] else [text]

namespace Block

mutual

/-- The comments of a block and of all below it, from the top down. -/
def comments : Block → List String
  | ⟨node, values, statements, next⟩ =>
      shownComment node.comment ++
        (commentsIn values ++ (commentsIn statements ++ commentsBehind next))

/-- The comments in inputs, from one input to the next. -/
def commentsIn : List (String × Block) → List String
  | [] => []
  | (_, child) :: rest => comments child ++ commentsIn rest

/-- The comments of what follows a block. -/
def commentsBehind : Option Block → List String
  | none => []
  | some child => comments child

end

theorem commentsIn_eq (inputs : List (String × Block)) :
    commentsIn inputs = inputs.flatMap fun input => input.2.comments := by
  induction inputs with
  | nil => rfl
  | cons input rest ih => rw [commentsIn, ih, List.flatMap_cons]

end Block

theorem shownComment_eq (n : Node) : shownComment n.comment = n.remark.toList := by
  unfold Node.remark
  cases n.comment with
  | none => rfl
  | some text => by_cases empty : text = "" <;> simp [shownComment, Option.filter, empty]

/-- The remarks that are met in a walk are the comments. -/
theorem Block.remarks_eq (b : Block) : b.remarks = b.comments := by
  have one (n : Node) : [n].filterMap Node.remark = shownComment n.comment := by
    rw [shownComment_eq]
    cases h : n.remark <;> simp [h]
  induction b with
  | mk node values statements next ihv ihs ihn =>
      have inside {inputs : List (String × Block)} (ih : ∀ input ∈ inputs,
          input.2.remarks = input.2.comments) :
          (walkInputs inputs).filterMap Node.remark = commentsIn inputs := by
        rw [walkInputs_eq, List.filterMap_flatMap, commentsIn_eq]
        exact List.flatMap_congr ih
      have behind : (walkNext next).filterMap Node.remark = commentsBehind next := by
        cases next with
        | none => rfl
        | some child => exact ihn child rfl
      rw [remarks, walk, ← List.singleton_append, comments]
      simp only [List.filterMap_append, one, inside ihv, inside ihs, behind]

/-! ### The lines -/

/-- Each line of some texts, behind a mark. -/
def markedLines (mark : String) (texts : List String) : List String :=
  (texts.flatMap lines).map (mark ++ ·)

theorem newline_not_mem_of_mem_flatMap_lines {texts : List String} {line : String}
    (h : line ∈ texts.flatMap lines) : '\n' ∉ line.toList := by
  obtain ⟨text, -, own⟩ := List.mem_flatMap.mp h
  exact newline_not_mem_of_mem_lines own

theorem newline_not_mem_of_mem_markedLines {mark line : String} {texts : List String}
    (oneLine : '\n' ∉ mark.toList) (h : line ∈ markedLines mark texts) : '\n' ∉ line.toList := by
  obtain ⟨own, hown, rfl⟩ := List.mem_map.mp h
  rw [String.toList_append, List.mem_append, not_or]
  exact ⟨oneLine, newline_not_mem_of_mem_flatMap_lines hown⟩

/-- Texts, each with a newline behind it, are marked line by line. -/
theorem prefixLines_eq_markedLines (mark : String) (texts : List String) :
    prefixLines (wholeLines texts) mark = wholeLines (markedLines mark texts) := by
  rw [← wholeLines_flatMap_lines,
    prefixLines_wholeLines fun _ => newline_not_mem_of_mem_flatMap_lines]
  rfl

/-- A block's own comment becomes the lines of the comment. -/
theorem ownRemarkLines_eq (kind : Kind) (n : Node) :
    ownRemarkLines kind n = wholeLines (markedLines (commentMark kind) (shownComment n.comment)) := by
  rw [← prefixLines_eq_markedLines, shownComment_eq]
  unfold ownRemarkLines
  cases n.remark with
  | none => rfl
  | some remark => simp

/-- The comments in a value become the lines of all of them. -/
theorem valueRemarkLines_eq (b : Block) :
    valueRemarkLines b = wholeLines (markedLines lineMark b.comments) := by
  rw [← b.remarks_eq]
  unfold valueRemarkLines
  split
  · next none => rw [none]; rfl
  · rw [joinLines_concat, String.append_empty]
    exact prefixLines_eq_markedLines lineMark b.remarks

/-- The comment lines of values are the lines of all their comments. -/
theorem join_valueRemarkLines (values : List (String × Block)) :
    String.join (values.map fun input => valueRemarkLines input.2) =
      wholeLines (markedLines lineMark (Block.commentsIn values)) := by
  induction values with
  | nil => rfl
  | cons input rest ih =>
      rw [List.map_cons, String.join_cons, ih, valueRemarkLines_eq, ← wholeLines_append]
      simp only [markedLines, Block.commentsIn, List.flatMap_append, List.map_append]

/-- The comment lines of a block have marks in front, doc marks only those of the comment of a
definition. Without the marks they are the lines of the block's own comment and then those of the
comments in its values, each once and in order, and nothing but the end of the text follows them. -/
theorem remarkLines_readBack (kind : Kind) (b : Block) :
    let code := remarkLines kind b.node b.values
    let own := (shownComment b.node.comment).flatMap lines
    let nested := (Block.commentsIn b.values).flatMap lines
    lines code = own.map (commentMark kind ++ ·) ++ nested.map (lineMark ++ ·) ++ [""] ∧
    (lines code).dropLast.map withoutMark = own ++ nested ∧
    commentMark kind =
      if kind ∈ [.proceduresDefReturn, .proceduresDefNoReturn, .widgetsDefReturn,
        .widgetsDefNoReturn] then docMark else lineMark := by
  intro code own nested
  have marked : lines code = own.map (commentMark kind ++ ·) ++ nested.map (lineMark ++ ·) ++ [""] := by
    have whole : code = wholeLines (markedLines (commentMark kind) (shownComment b.node.comment) ++
        markedLines lineMark (Block.commentsIn b.values)) := by
      rw [wholeLines_append, ← ownRemarkLines_eq, ← join_valueRemarkLines]
      rfl
    rw [whole, lines_wholeLines fun line h => ?oneLine]
    case oneLine =>
      rcases List.mem_append.mp h with h | h
      · exact newline_not_mem_of_mem_markedLines (newline_not_mem_commentMark kind) h
      · exact newline_not_mem_of_mem_markedLines (by decide) h
    rw [markedLines, markedLines]
  refine ⟨marked, ?_, commentMark_eq kind⟩
  rw [marked, List.dropLast_concat, List.map_append, List.map_map, List.map_map]
  have unmarkOwn : withoutMark ∘ (commentMark kind ++ ·) = id :=
    funext (withoutMark_commentMark kind)
  have unmarkNested : withoutMark ∘ (lineMark ++ ·) = id := funext withoutMark_lineMark
  rw [unmarkOwn, unmarkNested, List.map_id, List.map_id]

/-- A comment that ends with an empty line, and one of a value below a value. -/
example :
    remarkLines .proceduresDefReturn
      { id := "p", kindName := "procedures_defreturn", comment := some "/ a\n" }
      [("RETURN", { node := { id := "r", kindName := "math_single", comment := some "b\n\nc" } })] =
    "/// / a\n/// \n// b\n// \n// c\n" := by
  decide +kernel

end BlockScript
