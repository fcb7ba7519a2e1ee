import EchoJoyGateway.Lib.Bisect
import EchoJoyGateway.Lib.FairShare
import EchoJoyGateway.Lib.Json
import EchoJoyGateway.State.Snapshot

/-!
# The task of a request

`Extract` of `internal/automodel/context.go`: the task, its recent context and
the client's instructions, cut down to the budget of a decision. The request is
what `json.Unmarshal` made of its body; the decoder, the text of a number and the
hash are parameters.
-/

namespace EchoJoyGateway.AutoModel

open Utf8 State

inductive ExecutionPhase where
  | userTask
  | toolContinuation
  | other
  deriving DecidableEq

def ExecutionPhase.text : ExecutionPhase → Text
  | .userTask => ascii "user_task"
  | .toolContinuation => ascii "tool_continuation"
  | .other => ascii "other"

def maxStateBytes : Nat := 16 * 1024

def maxClientInstructionBytes : Nat := 1024

def maxRecentConversationBytes : Nat := 2 * 1024

def maxRecentToolBytes : Nat := 1024

inductive MessageKind where
  | message
  | toolResult
  deriving DecidableEq

def MessageKind.text : MessageKind → Text
  | .message => ascii "message"
  | .toolResult => ascii "tool_result"

structure TextMessage where
  role : Text
  kind : MessageKind
  text : Text
  deriving DecidableEq

structure InputFeatures where
  hasTools : Bool
  hasNonTextContent : Bool
  deriving DecidableEq

structure TaskState where
  executionPhase : ExecutionPhase
  taskFingerprint : Text
  currentTask : Text
  recentContext : List TextMessage
  clientInstructions : List TextMessage
  inputFeatures : InputFeatures
  contextTruncated : Bool
  deriving DecidableEq

/-- Why there is no task; no reason where there is one. -/
inductive Reason where
  | taskMissing
  | unsupportedOperation
  | nonTextTask
  | taskTooLarge
  deriving DecidableEq

/-! ## Encodings -/

variable (messages : List TextMessage) (message : TextMessage) (budget : Nat)

def TextMessage.encode : Text :=
  JSON.encodeObject [
    (ascii "role", JSON.encodeString message.role),
    (ascii "kind", JSON.encodeString message.kind.text),
    (ascii "text", JSON.encodeString message.text)]

def TextMessage.size : Nat := message.encode.length

def encodeMessages : Text := JSON.encodeArray (messages.map TextMessage.encode)

/-- The task's fingerprint is not encoded. -/
def TaskState.encode (state : TaskState) : Text :=
  JSON.encodeObject [
    (ascii "execution_phase", JSON.encodeString state.executionPhase.text),
    (ascii "current_task", JSON.encodeString state.currentTask),
    (ascii "recent_context", encodeMessages state.recentContext),
    (ascii "client_instructions", encodeMessages state.clientInstructions),
    (ascii "input_features", JSON.encodeObject [
      (ascii "has_tools", JSON.encodeBool state.inputFeatures.hasTools),
      (ascii "has_non_text_content", JSON.encodeBool state.inputFeatures.hasNonTextContent)]),
    (ascii "context_truncated", JSON.encodeBool state.contextTruncated)]

/-! ## Cutting texts -/

def truncationMark : Text := ascii "\n[truncated]\n"

/-- `value[:n]` without the bytes that make it invalid at its end. -/
def validHead (value : Text) : Nat → Text
  | 0 => []
  | n + 1 => if validString (value.take (n + 1)) then value.take (n + 1) else validHead value n

def validTail : Text → Text
  | [] => []
  | b :: rest => if validString (b :: rest) then b :: rest else validTail rest

def clip (value : Text) (limit : Nat) : Text :=
  if value.length ≤ limit then value
  else
    let half := (limit - truncationMark.length) / 2
    validHead value half ++ truncationMark ++ validTail (value.drop (value.length - half))

def TextMessage.clip (limit : Nat) : TextMessage :=
  { message with text := AutoModel.clip message.text limit }

def fitTextMessage : Option TextMessage :=
  (Bisect.search (fun limit => (message.clip limit).size ≤ budget)
    (truncationMark.length + 2) (message.text.length + 1) none).map message.clip

structure Newest where
  selected : List (Nat × TextMessage)
  used : Nat
  count : Nat
  truncated : Bool

def Newest.select (newest : Newest) (index separator : Nat) (message : TextMessage) : Newest :=
  { newest with
    selected := (index, message) :: newest.selected
    used := newest.used + (separator + message.size)
    count := newest.count + 1 }

def Newest.offer (newest : Newest) (item : Nat × TextMessage) : Newest :=
  let separator := if newest.count > 0 then 1 else 0
  let remaining := budget - newest.used - separator
  if remaining = 0 then { newest with truncated := true }
  else if item.2.size > remaining then
    match fitTextMessage item.2 remaining with
    | none => { newest with truncated := true }
    | some message => { newest.select item.1 separator message with truncated := true }
  else newest.select item.1 separator item.2

def compactNewest (messages : List (Nat × TextMessage)) (budget : Nat) : Newest :=
  messages.reverse.foldl (Newest.offer budget) ⟨[], 2, 0, false⟩

def compactRecentContext : List TextMessage × Bool :=
  let indexed := messages.zipIdx.map fun item => (item.2, item.1)
  let tools := compactNewest (indexed.filter fun item => item.2.kind = .toolResult)
    maxRecentToolBytes
  let regular := compactNewest (indexed.filter fun item => item.2.kind ≠ .toolResult)
    maxRecentConversationBytes
  ((List.range messages.length).filterMap fun index =>
      (tools.selected.lookup index).or (regular.selected.lookup index),
    regular.truncated || tools.truncated)

def allocations : Nat → Nat :=
  FairShare.allocate (fun index => (messages[index]?.map TextMessage.size).getD 0)
    (List.range messages.length) (budget - 2 - (messages.length - 1))

/-- A message as it is or cut to its share, and dropped where it cannot be cut. -/
def fitShare (share : Nat → Nat) (item : TextMessage × Nat) : Option TextMessage :=
  if item.1.size ≤ share item.2 then some item.1 else fitTextMessage item.1 (share item.2)

def compactFair : List TextMessage × Bool :=
  if (encodeMessages messages).length ≤ budget then (messages, false)
  else if messages = [] ∨ budget ≤ 2 + messages.length - 1 then ([], decide (messages.length > 0))
  else (messages.zipIdx.filterMap (fitShare (allocations messages budget)), true)

/-! ## Reading a request -/

section Reading

variable {Number : Type} (formatNumber : Number → Text)

structure Content where
  texts : List Text
  tools : List Text
  nonText : Bool

def Content.none : Content := ⟨[], [], false⟩

def Content.append (a b : Content) : Content :=
  ⟨a.texts ++ b.texts, a.tools ++ b.tools, a.nonText || b.nonText⟩

def Content.text (content : Content) : Text := (ascii "\n").intercalate content.texts

/-- What a part adds, given what `contentText` makes of its `content`. -/
def partContent (part : List (Text × JSON.Value Number)) (nested : Content) : Content :=
  let kind := (JSON.field part "type").text
  if kind = ascii "tool_result" then ⟨[], [nested.text], nested.nonText⟩
  else
    match JSON.field part "functionResponse" with
    | .object result => ⟨[], [JSON.encode formatNumber (JSON.field result "response")], false⟩
    | _ =>
      if (JSON.field part "functionCall").isNull = false ∨ kind = ascii "tool_use" then
        ⟨[], [ascii "[tool call]"], false⟩
      else
        match decide (kind ∈ [ascii "text", ascii "input_text", ascii "output_text", []]),
          JSON.field part "text" with
        | true, .string text => ⟨[text], [], false⟩
        | _, _ =>
          if kind = ascii "thinking" ∨ kind = ascii "redacted_thinking" then Content.none
          else ⟨[], [], true⟩

mutual

def contentText : JSON.Value Number → Content
  | .string text => ⟨[text], [], false⟩
  | .array items => contentParts items
  | _ => Content.none

def contentParts : List (JSON.Value Number) → Content
  | [] => Content.none
  | item :: rest => (contentPart item).append (contentParts rest)

def contentPart : JSON.Value Number → Content
  | .object fields => partContent formatNumber fields (contentOf fields)
  | _ => partContent formatNumber [] Content.none

/-- `contentText(part["content"])`. -/
def contentOf : List (Text × JSON.Value Number) → Content
  | [] => Content.none
  | (key, value) :: rest => if key = ascii "content" then contentText value else contentOf rest

end

structure Reading (Number : Type) where
  state : TaskState
  messages : List TextMessage
  latestTaskMessage : Option Nat
  taskPrefix : Option (JSON.Value Number)

namespace Reading

variable (items : List (JSON.Value Number)) (r : Reading Number) (role : Text)
  (value : JSON.Value Number) (item : JSON.Value Number × Nat)

def noteTools : Reading Number :=
  { r with state := { r.state with
      inputFeatures := { r.state.inputFeatures with hasTools := true } } }

def noteNonText (nonText : Bool) : Reading Number :=
  { r with state := { r.state with
      inputFeatures := { r.state.inputFeatures with
        hasNonTextContent := r.state.inputFeatures.hasNonTextContent || nonText } } }

def enter (phase : ExecutionPhase) : Reading Number :=
  { r with state := { r.state with executionPhase := phase } }

def add (kind : MessageKind) (text : Text) : Reading Number :=
  if trimSpace text = [] then r
  else if role = ascii "system" ∨ role = ascii "developer" then
    { r with state := { r.state with
        clientInstructions := r.state.clientInstructions ++ [⟨role, kind, text⟩] } }
  else { r with messages := r.messages ++ [⟨role, kind, text⟩] }

def addToolResult (result : Text) : Reading Number :=
  r.noteTools.add (ascii "tool") .toolResult result

structure Finding where
  isTask : Bool
  isTool : Bool
  textIndex : Option Nat

def addText (content : Content) : Reading Number :=
  let noted := r.noteNonText content.nonText
  if role = ascii "tool" then noted.noteTools.add role .toolResult content.text
  else noted.add role .message content.text

def readContent :
    Finding × Reading Number :=
  let content := contentText formatNumber value
  let before := r.messages.length
  let isTask := role = ascii "user" && (trimSpace content.text != [] || content.nonText)
  (⟨isTask, role = ascii "tool" || content.tools != [],
      if isTask && trimSpace content.text != [] then some before else none⟩,
    content.tools.foldl addToolResult (r.addText role content))

/-- A message of one of the item lists; `seen` are the items up to it. -/
def readMessage (seen : List (JSON.Value Number)) : Reading Number :=
  let (finding, next) := r.readContent formatNumber role value
  if finding.isTask then
    { next.enter .userTask with
      latestTaskMessage := finding.textIndex
      taskPrefix := some (.array seen) }
  else if finding.isTool then next.enter .toolContinuation
  else next

def readChatItem : Reading Number :=
  let message := item.1.fields
  let noted := if (JSON.field message "tool_calls").isNull then r else r.noteTools
  noted.readMessage formatNumber (JSON.field message "role").text (JSON.field message "content")
    (items.take (item.2 + 1))

def orUser : Text := if role = [] then ascii "user" else role

def readInputItem : Reading Number :=
  let message := item.1.fields
  let kind := (JSON.field message "type").text
  if kind = ascii "function_call_output" ∨ kind = ascii "custom_tool_call_output" then
    (r.addToolResult (contentText formatNumber (JSON.field message "output")).text).enter
      .toolContinuation
  else if kind = ascii "function_call" then r.noteTools
  else if kind ≠ [] ∧ kind ≠ ascii "message" then r
  else
    r.readMessage formatNumber (orUser (JSON.field message "role").text)
      (JSON.field message "content") (items.take (item.2 + 1))

def readContentsItem : Reading Number :=
  let message := item.1.fields
  let role := orUser (JSON.field message "role").text
  r.readMessage formatNumber (if role = ascii "model" then ascii "assistant" else role)
    (JSON.field message "parts") (items.take (item.2 + 1))

def readItems
    (step : List (JSON.Value Number) → Reading Number → JSON.Value Number × Nat → Reading Number)
    (value : JSON.Value Number) : Reading Number :=
  value.items.zipIdx.foldl (step value.items) r

/-- The result of `readContent` is not used for the instructions. -/
def readInstructions : Reading Number := (r.readContent formatNumber (ascii "system") value).2

def readInput : JSON.Value Number → Reading Number
  | .string input =>
    if trimSpace input = [] then r
    else
      let added := r.add (ascii "user") .message input
      { added.enter .userTask with
        latestTaskMessage := some (added.messages.length - 1)
        taskPrefix := some (.string input) }
  | value => r.readItems (readInputItem formatNumber) value

/-- The parts of the system instruction, under either of its names. -/
def systemInstruction (raw : List (Text × JSON.Value Number)) : JSON.Value Number :=
  match JSON.field raw "systemInstruction" with
  | .object instruction => JSON.field instruction "parts"
  | _ => JSON.field (JSON.field raw "system_instruction").fields "parts"

/-- The switch of `Extract` on the protocol; none where it is not supported. -/
def read (value : Protocol) (raw : List (Text × JSON.Value Number)) :
    Option (Reading Number) :=
  match value with
  | .openAICompletions => r.readItems (readChatItem formatNumber) (JSON.field raw "messages")
  | .anthropic =>
    (r.readInstructions formatNumber (JSON.field raw "system")).readItems
      (readChatItem formatNumber) (JSON.field raw "messages")
  | .openAIResponses =>
    (r.readInstructions formatNumber (JSON.field raw "instructions")).readInput formatNumber
      (JSON.field raw "input")
  | .gemini =>
    (r.readInstructions formatNumber (systemInstruction raw)).readItems
      (readContentsItem formatNumber) (JSON.field raw "contents")
  | _ => none

end Reading

end Reading

/-! ## The task -/

def promptVersion : Text := ascii "jev-presets-v4"

/-- What the task's environment gives: `json.Unmarshal` into a map, the text of a
number and the hash. -/
structure Codec (Number : Type) where
  unmarshal : Text → Option (JSON.Value Number)
  formatNumber : Number → Text
  sha256 : Text → Text

section Extract

variable {Number : Type} (codec : Codec Number)

/-- A JSON null leaves the map nil. -/
def Codec.unmarshalMap (body : Text) : Option (List (Text × JSON.Value Number)) :=
  match codec.unmarshal body with
  | some (.object fields) => some fields
  | some .null => some []
  | _ => none

def hexEncode (bytes : Text) : Text :=
  bytes.flatMap fun b => [JSON.hexDigit (b.toNat / 16), JSON.hexDigit (b.toNat % 16)]

def fingerprintTask (value : Protocol) (raw : List (Text × JSON.Value Number))
    (taskPrefix : Option (JSON.Value Number)) : Text :=
  match taskPrefix with
  | none => []
  | some seen =>
    let kept := ["instructions", "system", "systemInstruction", "system_instruction", "tools",
      "tool_choice", "parallel_tool_calls"].filterMap fun key =>
        (raw.lookup (ascii key)).map fun field => (ascii key, field)
    hexEncode (codec.sha256 (JSON.encode codec.formatNumber (.object ([
      (ascii "protocol", .string (ascii value.text)),
      (ascii "prompt_version", .string promptVersion),
      (ascii "task_prefix", seen)] ++ kept))))

def taskBudget : Nat :=
  maxStateBytes - maxClientInstructionBytes - maxRecentConversationBytes - maxRecentToolBytes - 512

def previousTask (messages : List TextMessage) : Nat → Option Nat
  | 0 => none
  | index + 1 =>
    match messages[index]? with
    | some message =>
      if message.role = ascii "user" ∧ message.kind = .message then some index
      else previousTask messages index
    | none => previousTask messages index

/-- The encoded size, and whether the context counts as truncated. -/
abbrev Sized := Int × Bool

/-- `removeSize`; a state that was not truncated before gets one byte shorter. -/
def removeSize (sized : Sized) (message : TextMessage) (count : Nat) : Sized :=
  let size := sized.1 - message.size - (if count > 1 then 1 else 0)
  if sized.2 then (size, true) else (size - 1, true)

/-- The loop that drops messages, the first of the list first. -/
def dropUntilFits (sized : Sized) : List TextMessage → Sized × List TextMessage
  | [] => (sized, [])
  | message :: rest =>
    if sized.1 > maxStateBytes then
      dropUntilFits (removeSize sized message (rest.length + 1)) rest
    else (sized, message :: rest)

def fitState (state : TaskState) : TaskState × Option Reason :=
  let (sized, instructions) := dropUntilFits (state.encode.length, state.contextTruncated)
    state.clientInstructions.reverse
  let (sized, context) := dropUntilFits sized state.recentContext
  let fitted := { state with
    clientInstructions := instructions.reverse
    recentContext := context
    contextTruncated := sized.2 }
  (fitted, if sized.1 > maxStateBytes then some .taskTooLarge else none)

def fitTask (message : TextMessage) : Option (Text × Bool) :=
  if message.size > taskBudget then
    (fitTextMessage message taskBudget).map fun fitted => (fitted.text, true)
  else some (message.text, false)

def compactState (state : TaskState) (messages : List TextMessage) (latest : Nat) : TaskState :=
  let start := (previousTask messages latest).getD latest
  let recent := (messages.zipIdx.filter fun item => start ≤ item.2 ∧ item.2 ≠ latest).map Prod.fst
  let context := compactRecentContext recent
  let instructions := compactFair state.clientInstructions maxClientInstructionBytes
  { state with
    recentContext := context.1
    clientInstructions := instructions.1
    contextTruncated := state.contextTruncated || decide (start > 0) || context.2 ||
      instructions.2 }

/-- What follows the reading; nothing where an index is out of range. -/
def Reading.finish (r : Reading Number) : Option (TaskState × Option Reason) :=
  match r.latestTaskMessage with
  | none =>
    if r.state.executionPhase = .userTask then some (r.state, some .nonTextTask)
    else some (r.state, some .taskMissing)
  | some latest =>
    match r.messages[latest]? with
    | none => none
    | some message =>
      match fitTask message with
      | none => some ({ r.state with currentTask := message.text }, some .taskTooLarge)
      | some (task, truncated) =>
        some (fitState (compactState
          { r.state with currentTask := task, contextTruncated := truncated } r.messages latest))

def initialState (hasTools : Bool) : TaskState where
  executionPhase := .other
  taskFingerprint := []
  currentTask := []
  recentContext := []
  clientInstructions := []
  inputFeatures := ⟨hasTools, false⟩
  contextTruncated := false

/-- The state of the reading after the switch, with the task's fingerprint. -/
def reading (value : Protocol) (raw : List (Text × JSON.Value Number)) : Option (Reading Number) :=
  let start : Reading Number := ⟨initialState (JSON.field raw "tools").isNull.not, [], none, none⟩
  (start.read codec.formatNumber value raw).map fun r =>
    { r with state := { r.state with
        taskFingerprint := fingerprintTask codec value raw r.taskPrefix } }

def extract (value : Protocol) (body : Text) : Option (TaskState × Option Reason) :=
  match codec.unmarshalMap body with
  | none => some (initialState false, some .taskMissing)
  | some raw =>
    match reading codec value raw with
    | none => some (initialState (JSON.field raw "tools").isNull.not, some .unsupportedOperation)
    | some r => r.finish

def FindsTextTask (value : Protocol) (body : Text) : Prop :=
  ∃ raw r latest, codec.unmarshalMap body = some raw ∧ reading codec value raw = some r ∧
    r.latestTaskMessage = some latest

end Extract

end EchoJoyGateway.AutoModel
