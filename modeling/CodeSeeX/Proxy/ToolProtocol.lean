import CodeSeeX.Json

/-!
# The DSML tool protocol of the upstream

The adapter that takes tool calls out of streamed text: the parser of a protocol
block and the buffer with its `push` and `finish`. The JSON parser is a parameter;
a call is its name and its arguments, its fresh id is left out.
-/
namespace CodeSeeX.ToolProtocol

def dsmlStart : Text := "<｜｜DSML｜｜tool_calls>"
def dsmlEnd : Text := "</｜｜DSML｜｜tool_calls>"
def invokeOpen : Text := "<｜｜DSML｜｜invoke"
def invokeClose : Text := "</｜｜DSML｜｜invoke>"
def paramOpen : Text := "<｜｜DSML｜｜parameter"
def paramClose : Text := "</｜｜DSML｜｜parameter>"

structure ChatToolCall where
  name : Text
  arguments : Text

@[ext] structure DeepSeekToolContent where
  visibleText : Text := []
  toolCalls : List ChatToolCall := []
  blocked : Bool := false
  parseFailed : Bool := false

namespace DeepSeekToolContent

/-- Contents are merged as the channel adapter merges them. -/
instance : Add DeepSeekToolContent where
  add a b :=
    { visibleText := a.visibleText ++ b.visibleText
      toolCalls := a.toolCalls ++ b.toolCalls
      blocked := a.blocked || b.blocked
      parseFailed := a.parseFailed || b.parseFailed }

instance : Zero DeepSeekToolContent := ⟨{}⟩

section
variable (a b : DeepSeekToolContent)

@[simp] theorem add_visibleText :
    (a + b).visibleText = a.visibleText ++ b.visibleText := rfl
@[simp] theorem add_toolCalls :
    (a + b).toolCalls = a.toolCalls ++ b.toolCalls := rfl
@[simp] theorem add_blocked :
    (a + b).blocked = (a.blocked || b.blocked) := rfl
@[simp] theorem add_parseFailed :
    (a + b).parseFailed = (a.parseFailed || b.parseFailed) := rfl

end

@[simp] theorem zero_visibleText : (0 : DeepSeekToolContent).visibleText = [] := rfl
@[simp] theorem zero_toolCalls : (0 : DeepSeekToolContent).toolCalls = [] := rfl
@[simp] theorem zero_blocked : (0 : DeepSeekToolContent).blocked = false := rfl
@[simp] theorem zero_parseFailed : (0 : DeepSeekToolContent).parseFailed = false := rfl

instance : AddMonoid DeepSeekToolContent where
  add_assoc a b c := by ext <;> simp [List.append_assoc, Bool.or_assoc]
  zero_add a := by ext <;> simp
  add_zero a := by ext <;> simp
  nsmul := nsmulRec

/-- Visible text and nothing else. -/
def text (visibleText : Text) : DeepSeekToolContent := { visibleText }

end DeepSeekToolContent

open DeepSeekToolContent

/-! ### The parser of a protocol block -/

/-- `block[cursor..].find(pat)`: the text from the first occurrence on. -/
def findFrom (pat : Text) (t : Text) : Option Text := (Infix.splitFirst pat t).map Prod.snd

def decodeDsmlText (value : Text) : Text :=
  value |> Text.replace "&quot;" "\"" |> Text.replace "&apos;" "'" |> Text.replace "&lt;" "<" |>
    Text.replace "&gt;" ">" |> Text.replace "&amp;" "&"

def attributeValue (header name : Text) : Option Text :=
  let needle := name ++ "=\""
  (findFrom needle header).bind fun rest =>
    (Infix.splitFirst ['"'] (rest.drop needle.length)).map fun p => decodeDsmlText p.1

def parseParameterValue (fromStr : Text → Option Value) (header rawValue : Text) : Value :=
  if attributeValue header "string" = some ("true" : Text) then .string rawValue
  else (fromStr rawValue).getD (.string rawValue)

theorem findFrom_length_le {pat t rest : Text} (h : findFrom pat t = some rest) :
    rest.length ≤ t.length := by
  obtain ⟨⟨before, rest'⟩, hs, rfl⟩ := Option.map_eq_some_iff.mp h
  rw [Infix.splitFirst_append hs]
  simp

/-- An element of the protocol: the header from `opening` to the first `>`, the text behind it
up to `closing`, and the rest of the block from there on. -/
def element (opening t : Text) : Option (Text × Text) :=
  (findFrom opening t).bind fun start =>
    (Infix.splitFirst ['>'] start).map fun p => (p.1 ++ ['>'], p.2.drop 1)

theorem element_length_lt {opening t header rest : Text}
    (h : element opening t = some (header, rest)) : rest.length < t.length := by
  obtain ⟨start, hstart, h⟩ := Option.bind_eq_some_iff.mp h
  obtain ⟨⟨before, close⟩, hs, h⟩ := Option.map_eq_some_iff.mp h
  have hle := findFrom_length_le hstart
  have happ := congrArg List.length (Infix.splitFirst_append hs)
  have hpos := (Infix.splitFirst_starts hs).length_le
  simp only [Prod.mk.injEq] at h
  simp only [List.length_append, List.length_singleton] at happ hpos
  rw [← h.2, List.length_drop]
  omega

def parseDsmlArguments.loop (fromStr : Text → Option Value) (object : List (Text × Value))
    (body : Text) : List (Text × Value) :=
  match _h : element paramOpen body with
  | none => object
  | some (header, rest) =>
      match _h2 : Infix.splitFirst paramClose rest with
      | none => object
      | some (raw, close) =>
          let object :=
            match attributeValue header "name" with
            | some name => Value.insertField name
                (parseParameterValue fromStr header (decodeDsmlText raw).trim) object
            | none => object
          loop fromStr object (close.drop paramClose.length)
termination_by body.length
decreasing_by
  have hlt := element_length_lt _h
  have happ := congrArg List.length (Infix.splitFirst_append _h2)
  simp only [List.length_append, List.length_drop] at *
  omega

def parseDsmlArguments (fromStr : Text → Option Value) (body : Text) : Value :=
  .object (parseDsmlArguments.loop fromStr [] body)

def parseDsmlToolCalls (fromStr : Text → Option Value) (block : Text) : List ChatToolCall :=
  match _h : element invokeOpen block with
  | none => []
  | some (header, rest) =>
      match attributeValue header "name" with
      | none => parseDsmlToolCalls fromStr rest
      | some name =>
          match _h2 : Infix.splitFirst invokeClose rest with
          | none => []
          | some (body, close) =>
              { name, arguments := (parseDsmlArguments fromStr body).print } ::
                parseDsmlToolCalls fromStr (close.drop invokeClose.length)
termination_by block.length
decreasing_by
  · exact element_length_lt _h
  · have hlt := element_length_lt _h
    have happ := congrArg List.length (Infix.splitFirst_append _h2)
    simp only [List.length_append, List.length_drop] at *
    omega

/-! ### The stream adapter -/

def looksLikeDsmlProtocol (value : Text) : Bool :=
  value.contains "<｜｜DSML" || value.contains "</｜｜DSML"

/-- What `push` and `finish` make of a protocol block. -/
def readBlock (fromStr : Text → Option Value) (allowToolCalls : Bool) (block : Text) :
    DeepSeekToolContent :=
  if allowToolCalls then
    let parsed := parseDsmlToolCalls fromStr block
    if parsed = [] then { parseFailed := true } else { toolCalls := parsed }
  else { blocked := true }

/-- The first index behind the first character from which the buffer is the beginning of an
opening tag; the end of the buffer counts as one. -/
def dsmlPrefixStart (buffer : Text) : ℕ :=
  ((((List.range buffer.length).drop 1 ++ [buffer.length]).find? fun index =>
    dsmlStart.startsWith (buffer.drop index))).getD buffer.length

theorem behindBlock_length_lt {buffer before rest inner close : Text}
    (h : Infix.splitFirst dsmlStart buffer = some (before, rest))
    (h2 : Infix.splitFirst dsmlEnd rest = some (inner, close)) :
    (close.drop dsmlEnd.length).length < buffer.length := by
  have happ := congrArg List.length (Infix.splitFirst_append h)
  have happ2 := congrArg List.length (Infix.splitFirst_append h2)
  have hpos := (Infix.splitFirst_starts h2).length_le
  have hend : 0 < dsmlEnd.length := by decide
  simp only [List.length_append, List.length_drop] at *
  omega

/-- The loop of `push` on the buffer: its answer and the buffer that it leaves. -/
def pushLoop (fromStr : Text → Option Value) (allowToolCalls : Bool) (buffer : Text) :
    DeepSeekToolContent × Text :=
  match _h : Infix.splitFirst dsmlStart buffer with
  | none =>
      let keepFrom := dsmlPrefixStart buffer
      (text (buffer.take keepFrom), buffer.drop keepFrom)
  | some (before, buffer') =>
      match _h2 : Infix.splitFirst dsmlEnd buffer' with
      | none => (text before, buffer')
      | some (inner, close) =>
          let later := pushLoop fromStr allowToolCalls (close.drop dsmlEnd.length)
          (text before + readBlock fromStr allowToolCalls (inner ++ dsmlEnd) + later.1, later.2)
termination_by buffer.length
decreasing_by exact behindBlock_length_lt _h _h2

def push (fromStr : Text → Option Value) (allowToolCalls : Bool) (buffer content : Text) :
    DeepSeekToolContent × Text :=
  pushLoop fromStr allowToolCalls (buffer ++ content)

def finish (fromStr : Text → Option Value) (allowToolCalls : Bool) (buffer : Text) :
    DeepSeekToolContent :=
  if buffer = [] then 0
  else if looksLikeDsmlProtocol buffer then readBlock fromStr allowToolCalls buffer
  else text buffer

/-- A run: the chunks are pushed one after the other, then the adapter is finished. -/
def adapt (fromStr : Text → Option Value) (allowToolCalls : Bool) (buffer : Text) :
    List Text → DeepSeekToolContent
  | [] => finish fromStr allowToolCalls buffer
  | content :: contents =>
      let pushed := push fromStr allowToolCalls buffer content
      pushed.1 + adapt fromStr allowToolCalls pushed.2 contents

end CodeSeeX.ToolProtocol
