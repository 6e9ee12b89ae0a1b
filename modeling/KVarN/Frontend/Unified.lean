import KVarN.Frontend.Reasoning

/-!
# The combined parser

`CombinedParser` runs the text of a model through an optional reasoning parser and the content it
leaves through an optional tool parser, and collects what they return as one list of events.

Tool parsers are a class; a call returns its result, the events it has committed and the new state.

## Main definitions

* `UnifiedParserEvent`, `pushText`, `pushReasoning`, `appendToolOutput` — outputs.
* `ToolParser` — the interface of tool parsers.
* `CombinedParser.parseInto`, `CombinedParser.finish`, `CombinedParser.reset`.
-/

namespace KVarN.Frontend

/-- `ToolCallDelta`. -/
structure ToolCallDelta where
  toolIndex : ℕ
  name : Option Text
  arguments : Text
  deriving DecidableEq, Repr

/-- `ToolParserEvent`. -/
inductive ToolParserEvent
  | text (text : Text)
  | toolCall (call : ToolCallDelta)
  deriving DecidableEq, Repr

/-- `UnifiedParserEvent`. -/
inductive UnifiedParserEvent
  | text (text : Text)
  | reasoning (text : Text)
  | toolCall (call : ToolCallDelta)
  deriving DecidableEq, Repr

/-- `UnifiedParserOutput`. -/
abbrev UnifiedParserOutput := List UnifiedParserEvent

namespace UnifiedParserOutput

variable (output : UnifiedParserOutput)

/-- `push_text`. -/
def pushText (delta : Text) : UnifiedParserOutput :=
  if delta = [] then output
  else
    match output.getLast? with
    | some (.text last) => output.dropLast ++ [.text (last ++ delta)]
    | _ => output ++ [.text delta]

/-- `push_reasoning`. -/
def pushReasoning (delta : Text) : UnifiedParserOutput :=
  if delta = [] then output
  else
    match output.getLast? with
    | some (.reasoning last) => output.dropLast ++ [.reasoning (last ++ delta)]
    | _ => output ++ [.reasoning delta]

/-- `push_call`. -/
def pushCall (call : ToolCallDelta) : UnifiedParserOutput :=
  output ++ [.toolCall call]

/-- `append_tool_output`. -/
def appendToolOutput (events : List ToolParserEvent) : UnifiedParserOutput :=
  events.foldl (fun output event =>
    match event with
    | .text text => output.pushText text
    | .toolCall call => output.pushCall call) output

/-- `append`. -/
def append (output other : UnifiedParserOutput) : UnifiedParserOutput :=
  other.foldl (fun output event =>
    match event with
    | .text text => output.pushText text
    | .reasoning text => output.pushReasoning text
    | .toolCall call => output.pushCall call) output

end UnifiedParserOutput

/-- The errors of a tool parser, by their messages. -/
abbrev ToolParserError := Text

/-- `ToolParser`: `parse_into` commits events also when it fails, `finish` does not. -/
class ToolParser (τ : Type) where
  parseInto : τ → Text → Except ToolParserError Unit × List ToolParserEvent × τ
  finish : τ → Except ToolParserError (List ToolParserEvent) × τ
  reset : τ → Text × τ

/-- `CombinedParser`. -/
structure CombinedParser (τ : Type) where
  reasoning : Option DelimitedReasoningParser
  tool : Option τ

namespace CombinedParser

variable {τ : Type} [ToolParser τ] (p : CombinedParser τ)

/-- `parse_tool`. -/
def parseTool (content : Text) (output : UnifiedParserOutput) :
    Except ToolParserError Unit × UnifiedParserOutput × CombinedParser τ :=
  match p.tool with
  | none => (.ok (), output.pushText content, p)
  | some tool =>
    let r := ToolParser.parseInto tool content
    (r.1, output.appendToolOutput r.2.1, { p with tool := some r.2.2 })

/-- `flush_tool`. -/
def flushTool : Except ToolParserError UnifiedParserOutput × CombinedParser τ :=
  match p.tool with
  | none => (.ok [], p)
  | some tool =>
    let r := ToolParser.finish tool
    (r.1.map (UnifiedParserOutput.appendToolOutput []), { p with tool := some r.2 })

/-- The content of a reasoning delta goes to the tool parser. -/
def parseContent (content : Option Text) (output : UnifiedParserOutput) :
    Except ToolParserError Unit × UnifiedParserOutput × CombinedParser τ :=
  match content with
  | none => (.ok (), output, p)
  | some content => p.parseTool content output

/-- `parse_into`. -/
def parseInto (delta : Text) (output : UnifiedParserOutput) :
    Except ToolParserError Unit × UnifiedParserOutput × CombinedParser τ :=
  match p.reasoning with
  | none => p.parseTool delta output
  | some reasoning =>
    let r := reasoning.push delta
    { p with reasoning := some r.2 }.parseContent r.1.content
      (output.pushReasoning (r.1.reasoning.getD []))

/-- The reasoning parser's part of `finish`. -/
def flushReasoning : Except ToolParserError Unit × UnifiedParserOutput × CombinedParser τ :=
  match p.reasoning with
  | none => (.ok (), [], p)
  | some reasoning =>
    let r := reasoning.finish
    { p with reasoning := some r.2 }.parseContent r.1.content
      (UnifiedParserOutput.pushReasoning [] (r.1.reasoning.getD []))

/-- `finish`: an error of either part drops what the parts have returned. -/
def finish : Except ToolParserError UnifiedParserOutput × CombinedParser τ :=
  match p.flushReasoning with
  | (.error e, _, p) => (.error e, p)
  | (.ok (), output, p) =>
    match p.flushTool with
    | (.error e, p) => (.error e, p)
    | (.ok flushed, p) => (.ok (output.append flushed), p)

/-- `reset`: only the tool parser's buffer is returned. -/
def reset (p : CombinedParser τ) : Text × CombinedParser τ :=
  match p.tool with
  | none => ([], p)
  | some tool => ((ToolParser.reset tool).1, { p with tool := some (ToolParser.reset tool).2 })

end CombinedParser

end KVarN.Frontend
