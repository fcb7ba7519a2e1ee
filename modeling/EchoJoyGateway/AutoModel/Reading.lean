import EchoJoyGateway.AutoModel.Fitting

/-!
# Where the task is read

The index that `Extract` keeps while it reads is that of a message of the user,
so what it returns fits.
-/

namespace EchoJoyGateway.AutoModel

open Utf8 State List

variable {Number : Type}

namespace Reading

/-- The latest task is one of the messages, and one of the user's. -/
def Sound (r : Reading Number) : Prop :=
  ∀ latest ∈ r.latestTaskMessage, ∃ text, r.messages[latest]? = some ⟨ascii "user", .message, text⟩

structure Extends (r r' : Reading Number) : Prop where
  messages : r.messages <+: r'.messages
  latest : r'.latestTaskMessage = r.latestTaskMessage

variable {r r' : Reading Number}

theorem Extends.trans {r'' : Reading Number} (h : Extends r r') (h' : Extends r' r'') :
    Extends r r'' :=
  ⟨h.messages.trans h'.messages, h'.latest.trans h.latest⟩

theorem Extends.getElem? (h : Extends r r') {i : Nat} {message : TextMessage}
    (hi : r.messages[i]? = some message) : r'.messages[i]? = some message := by
  obtain ⟨more, hmore⟩ := h.messages
  obtain ⟨hlt, -⟩ := List.getElem?_eq_some_iff.mp hi
  rw [← hmore, List.getElem?_append_left hlt, hi]

theorem Sound.extends (hr : r.Sound) (h : Extends r r') : r'.Sound := by
  intro latest hlatest
  rw [h.latest] at hlatest
  obtain ⟨text, htext⟩ := hr latest hlatest
  exact ⟨text, h.getElem? htext⟩

theorem Extends.of_eq (hmessages : r'.messages = r.messages)
    (hlatest : r'.latestTaskMessage = r.latestTaskMessage) : Extends r r' :=
  ⟨hmessages ▸ prefix_refl _, hlatest⟩

theorem extends_noteTools (r : Reading Number) : Extends r r.noteTools := .of_eq rfl rfl

theorem extends_noteNonText (r : Reading Number) (nonText : Bool) :
    Extends r (r.noteNonText nonText) := .of_eq rfl rfl

theorem extends_enter (r : Reading Number) (phase : ExecutionPhase) : Extends r (r.enter phase) :=
  .of_eq rfl rfl

theorem extends_add (r : Reading Number) (role : Text) (kind : MessageKind) (text : Text) :
    Extends r (r.add role kind text) := by
  unfold add
  split
  · exact .of_eq rfl rfl
  split
  · exact .of_eq rfl rfl
  · exact ⟨prefix_append _ _, rfl⟩

theorem add_user (r : Reading Number) {text : Text} (htext : trimSpace text ≠ []) :
    (r.add (ascii "user") .message text).messages =
      r.messages ++ [⟨ascii "user", .message, text⟩] := by
  have hrole : ¬ (ascii "user" = ascii "system" ∨ ascii "user" = ascii "developer") := by decide
  rw [add, if_neg htext, if_neg hrole]

theorem extends_addToolResult (r : Reading Number) (result : Text) :
    Extends r (r.addToolResult result) :=
  (extends_noteTools r).trans (extends_add _ _ _ _)

theorem extends_foldl_addToolResult (results : List Text) (r : Reading Number) :
    Extends r (results.foldl addToolResult r) := by
  induction results generalizing r with
  | nil => exact .of_eq rfl rfl
  | cons result results ih => exact (extends_addToolResult r result).trans (ih _)

theorem extends_addText (r : Reading Number) (role : Text) (content : Content) :
    Extends r (r.addText role content) := by
  unfold addText
  split
  · exact ((extends_noteNonText r content.nonText).trans (extends_noteTools _)).trans
      (extends_add _ _ _ _)
  · exact (extends_noteNonText r content.nonText).trans (extends_add _ _ _ _)

variable (formatNumber : Number → Text)

theorem extends_readContent (r : Reading Number) (role : Text) (value : JSON.Value Number) :
    Extends r (r.readContent formatNumber role value).2 :=
  (extends_addText r role _).trans (extends_foldl_addToolResult _ _)

theorem readContent_textIndex (r : Reading Number) (role : Text)
    (value : JSON.Value Number) {i : Nat}
    (hi : i ∈ (r.readContent formatNumber role value).1.textIndex) :
    ∃ text, (r.readContent formatNumber role value).2.messages[i]? =
      some ⟨ascii "user", .message, text⟩ := by
  simp only [readContent] at hi ⊢
  split at hi
  · rename_i htask
    cases hi
    simp only [Bool.and_eq_true, decide_eq_true_eq, bne_iff_ne] at htask
    obtain ⟨⟨rfl, -⟩, htext⟩ := htask
    refine ⟨(contentText formatNumber value).text, ?_⟩
    apply (extends_foldl_addToolResult _ _).getElem?
    have htool : ascii "user" ≠ ascii "tool" := by decide
    rw [addText, if_neg htool, add_user _ htext]
    exact getElem?_concat_length
  · cases hi

theorem Sound.readMessage (h : r.Sound) (role : Text) (value : JSON.Value Number)
    (seen : List (JSON.Value Number)) : (r.readMessage formatNumber role value seen).Sound := by
  have hextends := extends_readContent formatNumber r role value
  unfold Reading.readMessage
  simp only
  split
  · intro latest hlatest
    exact readContent_textIndex formatNumber r role value hlatest
  split
  · exact h.extends (hextends.trans (extends_enter _ _))
  · exact h.extends hextends

theorem Sound.readChatItem (h : r.Sound) (items : List (JSON.Value Number))
    (item : JSON.Value Number × Nat) : (readChatItem formatNumber items r item).Sound := by
  apply Sound.readMessage
  split
  · exact h
  · exact h.extends (extends_noteTools r)

theorem Sound.readInputItem (h : r.Sound) (items : List (JSON.Value Number))
    (item : JSON.Value Number × Nat) : (readInputItem formatNumber items r item).Sound := by
  unfold Reading.readInputItem
  simp only
  split
  · exact h.extends ((extends_addToolResult r _).trans (extends_enter _ _))
  split
  · exact h.extends (extends_noteTools r)
  split
  · exact h
  · exact h.readMessage formatNumber _ _ _

theorem Sound.readContentsItem (h : r.Sound) (items : List (JSON.Value Number))
    (item : JSON.Value Number × Nat) : (readContentsItem formatNumber items r item).Sound :=
  h.readMessage formatNumber _ _ _

theorem Sound.readItems (h : r.Sound)
    {step : List (JSON.Value Number) → Reading Number → JSON.Value Number × Nat → Reading Number}
    (hstep : ∀ items r item, Sound r → Sound (step items r item)) (value : JSON.Value Number) :
    (r.readItems step value).Sound := by
  unfold Reading.readItems
  generalize value.items.zipIdx = indexed
  induction indexed generalizing r with
  | nil => exact h
  | cons item indexed ih => exact ih (hstep _ r item h)

theorem Sound.readInstructions (h : r.Sound) (value : JSON.Value Number) :
    (r.readInstructions formatNumber value).Sound :=
  h.extends (extends_readContent formatNumber r _ value)

theorem Sound.readInput (h : r.Sound) (value : JSON.Value Number) :
    (r.readInput formatNumber value).Sound := by
  have hitems := h.readItems (fun items r item hr => hr.readInputItem formatNumber items item) value
  unfold Reading.readInput
  split
  · rename_i input
    split
    · exact h
    · rename_i hinput
      rintro latest ⟨⟩
      refine ⟨input, ?_⟩
      simp only [add_user r hinput, enter]
      simp
  · exact hitems

theorem Sound.read (h : r.Sound) {value : Protocol} {raw : List (Text × JSON.Value Number)}
    (hread : r.read formatNumber value raw = some r') :
    r'.Sound := by
  cases value <;> simp only [Reading.read, Option.some.injEq, reduceCtorEq] at hread
  case openAICompletions =>
    subst hread
    exact h.readItems (fun items r item hr => hr.readChatItem formatNumber items item) _
  case anthropic =>
    subst hread
    exact (h.readInstructions formatNumber _).readItems
      (fun items r item hr => hr.readChatItem formatNumber items item) _
  case openAIResponses =>
    subst hread
    exact (h.readInstructions formatNumber _).readInput formatNumber _
  case gemini =>
    subst hread
    exact (h.readInstructions formatNumber _).readItems
      (fun items r item hr => hr.readContentsItem formatNumber items item) _

end Reading

variable {r : Reading Number}

theorem reading_sound (codec : Codec Number) {value : Protocol}
    {raw : List (Text × JSON.Value Number)} (h : reading codec value raw = some r) : r.Sound := by
  obtain ⟨r', hread, rfl⟩ := Option.map_eq_some_iff.mp h
  refine .extends (r := r') ?_ (.of_eq rfl rfl)
  refine .read codec.formatNumber ?_ hread
  rintro latest ⟨⟩

/-! ## The budget of the state -/

theorem length_encode_le (state : TaskState) :
    state.encode.length ≤ (JSON.encodeString state.currentTask).length +
      (encodeMessages state.recentContext).length +
      (encodeMessages state.clientInstructions).length + 512 := by
  have hbool : ∀ b, (JSON.encodeBool b).length ≤ 5 := by decide
  have hphase : (JSON.encodeString state.executionPhase.text).length ≤ 19 := by
    cases state.executionPhase <;> decide
  have hkeys : (JSON.encodeString (ascii "execution_phase")).length = 17 ∧
      (JSON.encodeString (ascii "current_task")).length = 14 ∧
      (JSON.encodeString (ascii "recent_context")).length = 16 ∧
      (JSON.encodeString (ascii "client_instructions")).length = 21 ∧
      (JSON.encodeString (ascii "input_features")).length = 16 ∧
      (JSON.encodeString (ascii "context_truncated")).length = 19 ∧
      (JSON.encodeString (ascii "has_tools")).length = 11 ∧
      (JSON.encodeString (ascii "has_non_text_content")).length = 22 := by decide
  obtain ⟨h₁, h₂, h₃, h₄, h₅, h₆, h₇, h₈⟩ := hkeys
  have htools := hbool state.inputFeatures.hasTools
  have hnonText := hbool state.inputFeatures.hasNonTextContent
  have htruncated := hbool state.contextTruncated
  rw [TaskState.encode]
  simp only [JSON.sum_fieldLengths_cons, JSON.sum_fieldLengths_nil, JSON.length_encodeObject,
    length_cons, length_nil]
  omega

theorem dropUntilFits_of_le {sized : Sized} (h : sized.1 ≤ maxStateBytes)
    (messages : List TextMessage) : dropUntilFits sized messages = (sized, messages) := by
  cases messages with
  | nil => rfl
  | cons message rest => rw [dropUntilFits, if_neg (by omega)]

variable {state : TaskState}

theorem fitState_of_le (h : state.encode.length ≤ maxStateBytes) :
    fitState state = (state, none) := by
  have hsize : ((state.encode.length, state.contextTruncated) : Sized).1 ≤ maxStateBytes :=
    Int.ofNat_le.mpr h
  simp only [fitState, dropUntilFits_of_le hsize, reverse_reverse, if_neg (not_lt.mpr hsize)]

theorem compactState_fits (htask : (JSON.encodeString state.currentTask).length ≤ taskBudget)
    (messages : List TextMessage) (latest : Nat) :
    (compactState state messages latest).encode.length ≤ maxStateBytes := by
  have hlength := length_encode_le (compactState state messages latest)
  have hcontext : (encodeMessages (compactState state messages latest).recentContext).length ≤
      maxRecentConversationBytes + maxRecentToolBytes := compactRecentContext_le _
  have hinstructions :
      (encodeMessages (compactState state messages latest).clientInstructions).length ≤
        maxClientInstructionBytes := compactFair_le _ (by decide)
  have hbudget : taskBudget + (maxRecentConversationBytes + maxRecentToolBytes) +
      maxClientInstructionBytes + 512 = maxStateBytes := rfl
  change (JSON.encodeString (compactState state messages latest).currentTask).length ≤ _ at htask
  omega

theorem exists_fitTask (text : Text) :
    ∃ task truncated, fitTask ⟨ascii "user", .message, text⟩ = some (task, truncated) := by
  unfold fitTask
  split
  · rename_i hsize
    obtain ⟨fitted, hfit⟩ := fitTextMessage_task hsize
    exact ⟨fitted.text, true, by rw [hfit]; rfl⟩
  · exact ⟨text, false, rfl⟩

theorem Reading.Sound.finish (h : r.Sound) :
    ∃ state reason, r.finish = some (state, reason) ∧ reason ≠ some .taskTooLarge ∧
      (reason = none ↔ r.latestTaskMessage.isSome) ∧
      (reason = none → state.encode.length ≤ maxStateBytes) := by
  cases hlatest : r.latestTaskMessage with
  | none =>
    by_cases hphase : r.state.executionPhase = .userTask
    · exact ⟨r.state, some .nonTextTask, by simp [Reading.finish, hlatest, hphase], by simp⟩
    · exact ⟨r.state, some .taskMissing, by simp [Reading.finish, hlatest, hphase], by simp⟩
  | some latest =>
    obtain ⟨text, hmessage⟩ := h latest hlatest
    obtain ⟨task, truncated, hfit⟩ := exists_fitTask text
    have hbound := @compactState_fits
      { r.state with currentTask := task, contextTruncated := truncated } (fitTask_le hfit)
      r.messages latest
    refine ⟨_, none, ?_, by simp, by simp, fun _ => hbound⟩
    simp only [Reading.finish, hlatest, hmessage, hfit, fitState_of_le hbound]

theorem extract_spec (codec : Codec Number) (value : Protocol) (body : Text) :
    ∃ state reason, extract codec value body = some (state, reason) ∧
      reason ≠ some .taskTooLarge ∧ (reason = none ↔ FindsTextTask codec value body) ∧
      (reason = none → state.encode.length ≤ maxStateBytes) := by
  cases hraw : codec.unmarshalMap body with
  | none =>
    refine ⟨_, _, by simp only [extract, hraw]; rfl, by simp, ?_, by simp⟩
    simp [FindsTextTask, hraw]
  | some raw =>
    cases hreading : reading codec value raw with
    | none =>
      refine ⟨_, _, by simp only [extract, hraw, hreading]; rfl, by simp, ?_, by simp⟩
      simp [FindsTextTask, hraw, hreading]
    | some r =>
      obtain ⟨state, reason, hfinish, hsize, htask, hfits⟩ := (reading_sound codec hreading).finish
      refine ⟨state, reason, by simpa only [extract, hraw, hreading] using hfinish, hsize,
        htask.trans ?_, hfits⟩
      rw [Option.isSome_iff_exists]
      simp [FindsTextTask, hraw, hreading]

end EchoJoyGateway.AutoModel
