import ScriptLang.Report

/-!
# Reports as JSON

A small JSON writer with two spaces of indentation, and the JSON form of a report.
Fields keep the order in which they are given.
-/

namespace ScriptLang

/-- JSON values, as far as reports need them. -/
inductive Json where
  | bool (value : Bool)
  | number (value : Nat)
  | string (text : String)
  | array (items : List Json)
  | object (fields : List (String × Json))

namespace Json

/-- One character of a JSON string. -/
def escapeChar (c : Char) : String :=
  match c with
  | '"' => "\\\""
  | '\\' => "\\\\"
  | '\x08' => "\\b"
  | '\x0c' => "\\f"
  | '\n' => "\\n"
  | '\r' => "\\r"
  | '\t' => "\\t"
  | c =>
    if c.toNat < 0x20 then
      let digits := Nat.toDigits 16 c.toNat
      "\\u" ++ String.ofList (List.replicate (4 - digits.length) '0' ++ digits)
    else c.toString

/-- A JSON string. -/
def quoteText (text : String) : String :=
  "\"" ++ String.join (text.toList.map escapeChar) ++ "\""

/-- The beginning of a line at a depth of nesting. -/
def newline (depth : Nat) : String :=
  "\n" ++ String.ofList (List.replicate (2 * depth) ' ')

mutual

/-- Writes a value at a depth of nesting. -/
def render (depth : Nat) : Json → String
  | .bool b => if b then "true" else "false"
  | .number n => toString n
  | .string text => quoteText text
  | .array [] => "[]"
  | .array (item :: items) =>
    "[" ++ newline (depth + 1) ++ render (depth + 1) item ++
      renderItems (depth + 1) items ++
      newline depth ++ "]"
  | .object [] => "\x7b\x7d"
  | .object ((name, value) :: fields) =>
    "\x7b" ++ newline (depth + 1) ++ quoteText name ++ ": " ++
      render (depth + 1) value ++
      renderFields (depth + 1) fields ++ newline depth ++ "\x7d"

/-- Writes the items after the first one. -/
def renderItems (depth : Nat) : List Json → String
  | [] => ""
  | item :: items =>
      "," ++ newline depth ++ render depth item ++ renderItems depth items

/-- Writes the fields after the first one. -/
def renderFields (depth : Nat) : List (String × Json) → String
  | [] => ""
  | (name, value) :: fields =>
    "," ++ newline depth ++ quoteText name ++ ": " ++ render depth value ++
      renderFields depth fields

end

end Json

/-- A diagnostic as JSON. -/
def Diagnostic.json (file : String) (d : Diagnostic) : Json :=
  .object
    [("code", .string d.code), ("severity", .string d.severity.text),
     ("phase", .string d.phase.text), ("message", .string d.message),
     ("location", .object
       [("file", .string file),
        ("line", .number d.position.line),
        ("column", .number d.position.column),
        ("offset", .number d.position.offset)])]

/-- A report as JSON. -/
def Report.json (r : Report) : Json :=
  .object
    [("success", .bool r.success), ("source_file", .string r.file),
     ("diagnostics", .array (r.diagnostics.map (Diagnostic.json r.file))),
     ("stats", .object
       [("statements_run", .number r.stats.run),
        ("statements_failed", .number r.stats.failed),
        ("statements_skipped", .number r.stats.skipped)])]

/-- The text of a report in JSON. -/
def Report.jsonText (r : Report) : String := r.json.render 0

end ScriptLang
