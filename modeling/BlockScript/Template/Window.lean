import BlockScript.Options
import BlockScript.Script
import BlockScript.Number.Text

/-! # Windows

The function that builds a window. Each label and button in it leaves two pieces of code: one
that makes the widget, which is collected on the side, and one that puts it into the column. -/

namespace BlockScript.Template
open Script Number

/-- The function that builds a window from the widgets in its inputs. -/
def app (o : Options) (n : Node) : Script Emitted := do
  forgetWidgets
  let placements ← numberedValues "ADD" .anything "''" n.mutation.items
  let made ← constructors
  let body := Text.joinLines
    ["console::print(\"Rhai UI builder\\n\"); console::flush();",
      Text.joinLines made,
      "",
      "//  Create a column",
      "let mut col = Column::new();",
      Text.joinLines placements,
      "//  Return the column containing the widgets",
      "col"]
  let head := ["/// Build the UI for the window",
    "fn ui_builder() -> impl Widget<State> \x7b  //  `State` is the Application State"]
  done (.value (Text.joinLines (head ++ Text.indented body o.indent ++ ["\x7d"])) .anything)

def widgetName (n : Node) : String := Names.safeName ((n.field "NAME").getD "name")

/-- The space around a widget, to one decimal. -/
def padding (n : Node) : Script String :=
  let raw := (n.field "PADDING").getD "5"
  match readField raw with
  | some x => done x.oneDecimal
  | none => fail (.invalidNumber n.id raw)

/-- A line behind units of indentation. -/
def nested (o : Options) (depth : Nat) (line : String) : String :=
  Text.repeated o.indent depth ++ line

def labelConstructor (o : Options) (widget : String) : String :=
  let handler := "on_" ++ widget ++ "_show"
  Text.joinLines
    ["//  Create a line of text",
      "let " ++ widget ++ "_text = LocalizedString::new(\"hello-counter\")",
      nested o 1 (".with_arg(\"count\", " ++ handler ++ ");  //  Call `" ++ handler ++
        "` to get label text"),
      "//  Create a label widget " ++ widget,
      "let " ++ widget ++ " = Label::new(" ++ widget ++ "_text);"]

def label (o : Options) (n : Node) : Script Emitted := do
  let widget := widgetName n
  let space ← padding n
  addConstructor widget (labelConstructor o widget)
  done (.value (Text.joinLines
    ["//  Add the label widget to the column, centered with padding",
      "col.add_child(",
      nested o 1 "Align::centered(",
      nested o 2 ("Padding::new(" ++ space ++ ","),
      nested o 3 widget,
      nested o 2 ")",
      nested o 1 "),",
      nested o 1 "1.0",
      ");"]) .anything)

def buttonConstructor (widget : String) : String :=
  let handler := "on_" ++ widget ++ "_press"
  Text.joinLines
    ["//  Create a button widget " ++ widget,
      "let " ++ widget ++ " = Button::new(\"increment\", " ++ handler ++ ");  //  Call `" ++
        handler ++ "` when pressed"]

def button (o : Options) (n : Node) : Script Emitted := do
  let widget := widgetName n
  let space ← padding n
  addConstructor widget (buttonConstructor widget)
  done (.value (Text.joinLines
    ["//  Add the button widget to the column, with padding",
      "col.add_child(",
      nested o 1 ("Padding::new(" ++ space ++ ","),
      nested o 2 widget,
      nested o 1 "),",
      nested o 1 "1.0",
      ");"]) .anything)

end BlockScript.Template
