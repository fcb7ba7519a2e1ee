import EchoJoyGateway.AutoModel.Config
import EchoJoyGateway.AutoModel.Reading
import Mathlib.Data.List.Perm.Subperm

/-!
# Decisions fit their budgets

A compiled entry leaves room in its requests for any state within the budget of
states. The state of `Extract` is within it, so a request for a decision about
some of the entry's presets is never too large.
-/

namespace EchoJoyGateway.AutoModel

open Utf8 State List
open Traverse (bind_ok foldlM_ok)

/-! ## Requests -/

theorem length_append_of {a b : String} {m n : Nat} (ha : a.length = m) (hb : b.length = n) :
    (a ++ b).length = m + n := by
  rw [String.length_append, ha, hb]

theorem length_instructions : instructions.length = 1034 := by
  rw [instructions, ascii, length_map, String.length_toList]
  apply Eq.trans
  · -- The literals one by one, from the last.
    iterate 13 apply fun h => length_append_of h String.length_ofList
    exact String.length_ofList
  · rfl

theorem exists_length_encodeRequest : ∃ frame ≤ 6294, ∀ model state criteria,
    (encodeRequest model state criteria).length =
      (JSON.encodeString model).length + state.length + criteria.encode.length + frame := by
  refine ⟨(JSON.encodeString instructions).length + 88, ?_, fun model state criteria => ?_⟩
  · have hlength := JSON.length_encodeString_le instructions
    rw [length_instructions] at hlength
    exact Nat.add_le_add_right hlength 88
  · have hkeys : (JSON.encodeString (ascii "model")).length = 7 ∧
        (JSON.encodeString (ascii "state")).length = 7 ∧
        (JSON.encodeString (ascii "questions")).length = 11 ∧
        (JSON.encodeString (ascii "preset")).length = 8 ∧
        (JSON.encodeString (ascii "type")).length = 6 ∧
        (JSON.encodeString (ascii "choice")).length = 8 ∧
        (JSON.encodeString (ascii "instructions")).length = 14 ∧
        (JSON.encodeString (ascii "criteria")).length = 10 := by decide
    unfold encodeRequest
    -- The instructions are a long text that is not to be evaluated.
    simp only [JSON.length_encodeMap, JSON.sum_fieldLengths_cons, JSON.sum_fieldLengths_nil,
      length_cons, length_nil]
    omega

theorem Criteria.length_encode_le {criteria criteria' : Criteria}
    (h : ∀ id description, criteria.lookup id = some description →
      criteria'.lookup id = some description) :
    criteria.encode.length ≤ criteria'.encode.length := by
  have hsub : criteria.entries.Subperm criteria'.entries := by
    apply subperm_of_subset (List.NodupKeys.nodup criteria.nodupKeys)
    rintro ⟨id, description⟩ hmem
    exact AList.mem_lookup_iff.mp (h id description (AList.mem_lookup_iff.mpr hmem))
  obtain ⟨kept, hperm, hsublist⟩ := hsub
  have hfields := (hsublist.map fun entry => (entry.1, JSON.encodeString entry.2)).map
    fun item : Text × Text => (JSON.encodeString item.1).length + 1 + item.2.length
  have hsum := hfields.sum_le_sum fun _ _ => Nat.zero_le _
  rw [((hperm.map fun entry => (entry.1, JSON.encodeString entry.2)).map _).sum_eq] at hsum
  have hcount := hperm.length_eq ▸ hsublist.length_le
  rw [Criteria.encode, Criteria.encode, JSON.length_encodeMap, JSON.length_encodeMap,
    length_map, length_map]
  change (JSON.fieldLengths _).sum ≤ (JSON.fieldLengths _).sum at hsum
  omega

section Compiled

variable {Rules : Type} (codec : ConfigCodec Rules)

theorem require_ok {condition : Bool} {failure : CompileError} {u : Unit} :
    require condition failure = .ok u ↔ condition = true := by
  unfold require
  split
  · rename_i h
    simp [h]
  · rename_i h
    simp [h]

def PresetLoop.Described (loop : PresetLoop Rules) : Prop :=
  ∀ compiled ∈ loop.presets, loop.criteria.lookup compiled.preset.id =
    some compiled.preset.description

variable {config : Config} {ordinaryModels : Text → Bool}

theorem compilePreset_described {entry : Entry} {loop loop' : PresetLoop Rules} {preset : Preset}
    (hloop : loop.Described)
    (h : compilePreset codec config ordinaryModels entry loop preset = .ok loop') :
    loop'.Described := by
  obtain ⟨_, -, h⟩ := bind_ok.mp h
  obtain ⟨_, hnew, h⟩ := bind_ok.mp h
  obtain ⟨_, -, h⟩ := bind_ok.mp h
  simp only at h
  split at h
  · cases h
  · cases h
    have hfresh := of_decide_eq_true (require_ok.mp hnew)
    intro compiled hmem
    rcases mem_append.mp hmem with hold | hlast
    · have hlookup := hloop compiled hold
      have hne : compiled.preset.id ≠ preset.id := by
        rintro heq
        apply hfresh
        rw [← heq, ← AList.lookup_isSome, hlookup]
        rfl
      rw [AList.lookup_insert_ne hne]
      exact hlookup
    · rw [mem_singleton.mp hlast]
      exact AList.lookup_insert _

/-- The requests of an entry leave room for a state. -/
def Budgeted (model : Text) (entry : CompiledEntry Rules) : Prop :=
  ∃ criteria : Criteria,
    (∀ compiled ∈ entry.presets,
      criteria.lookup compiled.preset.id = some compiled.preset.description) ∧
    (encodeRequest model (JSON.encodeMap []) criteria).length ≤ maxRequestBytes - maxStateBytes

theorem compileEntry_budgeted {entries entries' : List (CompiledEntry Rules)} {entry : Entry}
    (hentries : ∀ entry ∈ entries, Budgeted config.model entry)
    (h : compileEntry codec config ordinaryModels entries entry = .ok entries') :
    ∀ entry ∈ entries', Budgeted config.model entry := by
  obtain ⟨_, -, h⟩ := bind_ok.mp h
  obtain ⟨_, -, h⟩ := bind_ok.mp h
  obtain ⟨_, -, h⟩ := bind_ok.mp h
  obtain ⟨_, -, h⟩ := bind_ok.mp h
  obtain ⟨_, -, h⟩ := bind_ok.mp h
  obtain ⟨encodedEntry, -, h⟩ := bind_ok.mp h
  obtain ⟨loop, hloop, h⟩ := bind_ok.mp h
  obtain ⟨_, -, h⟩ := bind_ok.mp h
  obtain ⟨_, hpayload, h⟩ := bind_ok.mp h
  cases h
  have hdescribed : loop.Described := foldlM_ok (fun _ loop => loop.Described)
    (fun _ _ _ _ hloop hstep => compilePreset_described codec hloop hstep)
    nofun hloop
  intro other hother
  rcases mem_append.mp hother with hold | hlast
  · exact hentries other hold
  · rw [mem_singleton.mp hlast]
    exact ⟨loop.criteria, hdescribed, of_decide_eq_true (require_ok.mp hpayload)⟩

variable {compiled : Compiled Rules}

theorem compile_budgeted {given : Config} {decisionModels : Text → Bool}
    (h : compile codec given ordinaryModels decisionModels = .ok compiled) :
    validString compiled.config.model = true ∧
      ∀ entry ∈ compiled.entries, Budgeted compiled.config.model entry := by
  obtain ⟨raw, -, h⟩ := bind_ok.mp h
  obtain ⟨config, -, h⟩ := bind_ok.mp h
  split at h
  · cases h
  · obtain ⟨_, hmodel, h⟩ := bind_ok.mp h
    obtain ⟨_, -, h⟩ := bind_ok.mp h
    obtain ⟨_, -, h⟩ := bind_ok.mp h
    obtain ⟨entries, hentries, h⟩ := bind_ok.mp h
    obtain ⟨_, -, h⟩ := bind_ok.mp h
    cases h
    constructor
    · have hname := require_ok.mp hmodel
      simp only [Bool.and_eq_true, Bool.or_eq_true, beq_iff_eq] at hname
      rcases hname.2 with hempty | hvalid
      · rw [hempty]
        rfl
      · simp only [validName, Bool.and_eq_true] at hvalid
        exact hvalid.1.2
    · exact foldlM_ok (fun _ entries => ∀ entry ∈ entries, Budgeted config.model entry)
        (fun _ _ _ _ hentries hstep => compileEntry_budgeted codec hentries hstep)
        (fun _ hmem => by cases hmem) hentries

/-- What `encoding/json` does to a configuration on its way through its text. -/
structure ConfigCodec.Lawful : Prop where
  keepsModel : ∀ config raw stored, codec.marshal config = .ok raw → codec.decode raw = .ok stored →
    validString config.model = true → stored.config.model = config.model
  empty : ∃ message, codec.decode [] = .error message

theorem decode_nil (hcodec : codec.Lawful) : ∃ message, decode codec [] = .error message := by
  obtain ⟨message, hempty⟩ := hcodec.empty
  exact ⟨message, by simp [decode, decodeStored, hempty]⟩

theorem decode_model (hcodec : codec.Lawful) {config' : Config} {raw : Text}
    (hvalid : validString config.model = true) (hraw : codec.marshal config = .ok raw)
    (hdecode : decode codec raw = .ok config') : config'.model = config.model := by
  unfold decode decodeStored at hdecode
  split at hdecode
  · cases hdecode
  · cases hdecode
  · rename_i hstored
    cases hdecode
    split at hstored
    · cases hstored
    split at hstored
    · cases hstored
    · rename_i stored hread
      split at hstored
      · cases hstored
      · cases hstored
        exact hcodec.keepsModel config raw stored hraw hread hvalid

theorem copyConfig_model (hcodec : codec.Lawful)
    (hvalid : validString compiled.config.model = true) :
    (compiled.copyConfig codec).model = compiled.config.model ∨
      (compiled.copyConfig codec).model = [] := by
  unfold Compiled.copyConfig
  cases hraw : codec.marshal compiled.config with
  | error message =>
    obtain ⟨message', hdecode⟩ := decode_nil codec hcodec
    exact .inr (by simp [hdecode])
  | ok raw =>
    cases hdecode : decode codec raw with
    | error message => exact .inr (by simp [hdecode])
    | ok config =>
      have hmodel := decode_model codec hcodec hvalid hraw hdecode
      exact .inl (by simpa only [hdecode] using hmodel)

theorem lookup_criteriaOf {criteria : Criteria} (presets : List (CompiledPreset Rules))
    (hpresets : ∀ compiled ∈ presets,
      criteria.lookup compiled.preset.id = some compiled.preset.description)
    {id description : Text} (h : (criteriaOf presets).lookup id = some description) :
    criteria.lookup id = some description := by
  have hrun : ∀ (rest : List (CompiledPreset Rules)) (start : Criteria),
      (∀ compiled ∈ rest, criteria.lookup compiled.preset.id = some compiled.preset.description) →
      (∀ id description, start.lookup id = some description →
        criteria.lookup id = some description) →
      ∀ id description, (rest.foldl (fun criteria compiled =>
        criteria.insert compiled.preset.id compiled.preset.description) start).lookup id =
          some description → criteria.lookup id = some description := by
    intro rest
    induction rest with
    | nil => exact fun start _ hstart => hstart
    | cons compiled rest ih =>
      intro start hrest hstart
      apply ih _ fun other hother => hrest other (mem_cons_of_mem _ hother)
      intro id description hlookup
      by_cases hid : id = compiled.preset.id
      · subst hid
        rw [AList.lookup_insert] at hlookup
        rw [← hlookup]
        exact hrest compiled (.head _)
      · rw [AList.lookup_insert_ne hid] at hlookup
        exact hstart id description hlookup
  exact hrun presets ∅ hpresets nofun id description h

theorem buildDecisionRequest_fits (hcodec : codec.Lawful)
    (hvalid : validString compiled.config.model = true) {entry : CompiledEntry Rules}
    (hentry : Budgeted compiled.config.model entry) {presets : List (CompiledPreset Rules)}
    (hpresets : ∀ preset ∈ presets, preset ∈ entry.presets) {state : TaskState}
    (hstate : state.encode.length ≤ maxStateBytes) :
    (buildDecisionRequest codec compiled presets state).2.reason = none := by
  obtain ⟨criteria, hdescribed, hlength⟩ := hentry
  have hmodel : (JSON.encodeString (compiled.copyConfig codec).model).length ≤
      (JSON.encodeString compiled.config.model).length := by
    rcases copyConfig_model codec hcodec hvalid with heq | hempty
    · rw [heq]
    · rw [hempty]
      exact JSON.two_le_length_encodeString _
  have hcriteria :=
    Criteria.length_encode_le fun _ _ => lookup_criteriaOf presets
      fun preset hpreset => hdescribed preset (hpresets preset hpreset)
  obtain ⟨frame, -, hframe⟩ := exists_length_encodeRequest
  rw [hframe] at hlength
  have hbudget : maxRequestBytes - maxStateBytes + maxStateBytes = maxRequestBytes := rfl
  have hfits : ¬ (encodeRequest (compiled.copyConfig codec).model state.encode
      (criteriaOf presets)).length > maxRequestBytes := by
    rw [hframe]
    omega
  rw [buildDecisionRequest]
  simp only [if_neg hfits]

end Compiled

/-! ## Decisions -/

section Sample

def chatMessage (role : String) (content : Text) : JSON.Value Unit :=
  .object [(ascii "role", .string (ascii role)), (ascii "content", .string content)]

def sampleRequest (task : Text) : JSON.Value Unit :=
  .object [(ascii "messages",
    .array [chatMessage "system" (ascii "be brief"), chatMessage "user" task])]

def sampleBody (task : Text) : Text := JSON.encode (fun _ => []) (sampleRequest task)

def sampleCodec (task : Text) : Codec Unit where
  unmarshal text := if text = sampleBody task then some (sampleRequest task) else none
  formatNumber _ := []
  sha256 text := text

/-- A task of letters, above its budget where there are enough of them. -/
def letters (n : Nat) : Text := List.replicate n 0x61

theorem trimSpace_letters (n : Nat) : trimSpace (letters n) = letters n := by
  have hbytes : ∀ b ∈ letters n, b = 0x61 := fun b hb => eq_of_mem_replicate hb
  apply trimSpace_eq_self
  rw [runes_ascii fun b hb => hbytes b hb ▸ by decide]
  intro r hr
  obtain ⟨b, hb, rfl⟩ := mem_map.mp hr
  rw [hbytes b hb]
  decide

theorem readChatItem_user (f : Unit → Text) (items : List (JSON.Value Unit)) (r : Reading Unit)
    {task : Text} (htask : trimSpace task ≠ []) (index : Nat) :
    (r.readChatItem f items (chatMessage "user" task, index)).latestTaskMessage =
      some r.messages.length := by
  have htools : JSON.field (chatMessage "user" task).fields "tool_calls" = .null := rfl
  have hrole : (JSON.field (chatMessage "user" task).fields "role").text = ascii "user" := rfl
  have hcontent : JSON.field (chatMessage "user" task).fields "content" = .string task := rfl
  simp [Reading.readChatItem, htools, hrole, hcontent, JSON.Value.isNull, Reading.readMessage,
    Reading.readContent, contentText, Content.text, htask]

theorem sampleBody_task {task : Text} (htask : trimSpace task ≠ []) :
    FindsTextTask (sampleCodec task) .openAICompletions (sampleBody task) := by
  have hmap : (sampleCodec task).unmarshalMap (sampleBody task) =
      some (sampleRequest task).fields := by
    simp only [Codec.unmarshalMap, sampleCodec]
    rfl
  have hmessages : (JSON.field (sampleRequest task).fields "messages").items =
      [chatMessage "system" (ascii "be brief"), chatMessage "user" task] := rfl
  simp [FindsTextTask, hmap, reading, Reading.read, Reading.readItems, hmessages,
    readChatItem_user _ _ _ htask]

def samplePreset (id description model : String) : Preset where
  id := ascii id
  name := ascii id
  description := ascii description
  model := ascii model
  parameterOverrides := ascii "[]"

def sampleEntry : Entry where
  id := ascii "auto"
  name := ascii "auto"
  enabled := true
  fallback := ascii "low"
  presets := [samplePreset "low" "routine work" "small", samplePreset "high" "hard work" "large"]

def sampleConfig : Config where
  enabled := true
  model := ascii "jev"
  timeoutSeconds := 2
  models := some [sampleEntry]

def sampleEntryText : Text := ascii (
    "\x7b\"id\":\"auto\",\"name\":\"auto\",\"enabled\":true,\"fallback\":\"low\",\"presets\":[" ++
    "\x7b\"id\":\"low\",\"name\":\"low\",\"description\":\"routine work\",\"model\":\"small\"," ++
    "\"parameter_overrides\":[]\x7d," ++
    "\x7b\"id\":\"high\",\"name\":\"high\",\"description\":\"hard work\",\"model\":\"large\"," ++
    "\"parameter_overrides\":[]\x7d]\x7d")

def sampleConfigText : Text :=
  ascii "\x7b\"enabled\":true,\"model\":\"jev\",\"timeout_seconds\":2,\"models\":[" ++
    sampleEntryText ++ ascii "]\x7d"

/-- The answers of `encoding/json` about one configuration. -/
def sampleConfigCodec : ConfigCodec Unit where
  marshal config := if config = sampleConfig then .ok sampleConfigText else .error "no answer"
  decode raw :=
    if raw = sampleConfigText then .ok ⟨sampleConfig, none, none, none, none⟩ else .error "EOF"
  marshalEntry entry := if entry = sampleEntry then .ok sampleEntryText else .error "no answer"
  compileRules overrides := if overrides = ascii "[]" then some () else none
  sha256 text := text

theorem sampleConfigCodec_lawful : sampleConfigCodec.Lawful := by
  refine ⟨fun config raw stored hraw hread _ => ?_, "EOF", rfl⟩
  simp only [sampleConfigCodec] at hraw hread
  split at hraw <;> split at hread <;> cases hread
  · rename_i hconfig _
    rw [hconfig]
  · cases hraw

theorem marshal_sampleEntry : sampleConfigCodec.marshalEntry sampleEntry = .ok sampleEntryText := by
  simp only [sampleConfigCodec, if_true]

theorem length_sampleConfigText : sampleConfigText.length = 324 := by
  have hentry : sampleEntryText.length = 262 := by
    rw [sampleEntryText, ascii, length_map, String.length_toList]
    apply Eq.trans
    · iterate 4 apply fun h => length_append_of h String.length_ofList
      exact String.length_ofList
    · rfl
  rw [sampleConfigText, length_append, length_append, hentry]
  rfl

theorem sampleConfig_copies :
    sampleConfigCodec.marshal sampleConfig = .ok sampleConfigText ∧
      decode sampleConfigCodec sampleConfigText = .ok sampleConfig := by
  have hlength : ¬ sampleConfigText.length > 1024 * 1024 := by
    rw [length_sampleConfigText]
    decide
  have hread : sampleConfigCodec.decode sampleConfigText =
      .ok ⟨sampleConfig, none, none, none, none⟩ := by simp only [sampleConfigCodec, if_true]
  constructor
  · simp only [sampleConfigCodec, if_true]
  · rw [decode, decodeStored, if_neg hlength, hread]
    rfl

def sampleModels (model : Text) : Bool := model == ascii "small" || model == ascii "large"

def sampleCriteria : Criteria :=
  (AList.insert (ascii "low") (ascii "routine work") ∅).insert (ascii "high") (ascii "hard work")

theorem length_sampleRequest_le :
    (encodeRequest (ascii "jev") (JSON.encodeMap []) sampleCriteria).length ≤
      maxRequestBytes - maxStateBytes := by
  obtain ⟨frame, hframe, hlength⟩ := exists_length_encodeRequest
  have hparts : (JSON.encodeString (ascii "jev")).length = 5 ∧ (JSON.encodeMap []).length = 2 ∧
      sampleCriteria.encode.length = 41 := by decide
  have hbudget : maxRequestBytes - maxStateBytes = 8192 := rfl
  rw [hlength]
  omega

def samplePresets : List (CompiledPreset Unit) := sampleEntry.presets.map fun preset => ⟨preset, ()⟩

def sampleCompiled : Compiled Unit where
  config := sampleConfig
  entries := [⟨ascii "auto", ascii "auto", true, ascii "low", samplePresets,
    hexEncode (sampleConfigCodec.sha256 sampleEntryText)⟩]

theorem sampleEntry_compiles :
    compileEntry sampleConfigCodec sampleConfig sampleModels [] sampleEntry =
      .ok sampleCompiled.entries := by
  refine bind_ok.mpr ⟨(), by decide, ?_⟩
  refine bind_ok.mpr ⟨(), by decide, ?_⟩
  refine bind_ok.mpr ⟨(), by decide, ?_⟩
  refine bind_ok.mpr ⟨(), by decide, ?_⟩
  refine bind_ok.mpr ⟨(), by decide, ?_⟩
  refine bind_ok.mpr ⟨sampleEntryText, congrArg orInvalid marshal_sampleEntry, ?_⟩
  refine bind_ok.mpr ⟨⟨sampleCriteria, samplePresets⟩, rfl, ?_⟩
  refine bind_ok.mpr ⟨(), by decide, ?_⟩
  exact bind_ok.mpr ⟨(), require_ok.mpr (decide_eq_true length_sampleRequest_le), rfl⟩

theorem sampleConfig_compiles :
    compile sampleConfigCodec sampleConfig sampleModels (fun _ => true) =
      .ok sampleCompiled := by
  refine bind_ok.mpr ⟨sampleConfigText, congrArg orInvalid sampleConfig_copies.1, ?_⟩
  refine bind_ok.mpr ⟨sampleConfig, congrArg orInvalid sampleConfig_copies.2, ?_⟩
  refine bind_ok.mpr ⟨(), by decide, ?_⟩
  refine bind_ok.mpr ⟨(), by decide, ?_⟩
  refine bind_ok.mpr ⟨(), by decide, ?_⟩
  refine bind_ok.mpr ⟨sampleCompiled.entries, ?_, ?_⟩
  · rw [map_cons, foldlM_cons]
    exact bind_ok.mpr ⟨_, sampleEntry_compiles, rfl⟩
  · exact bind_ok.mpr ⟨(), by decide, rfl⟩

end Sample

/-- `Extract` never calls a task too large, and the state of a task it finds is
within the budget, as is a request about it to any presets of a compiled entry. -/
theorem decisions_fit_budgets {Number Rules : Type} (codec : Codec Number) (value : Protocol)
    (body : Text) :
    ∃ state reason, extract codec value body = some (state, reason) ∧
      reason ≠ some .taskTooLarge ∧ (reason = none ↔ FindsTextTask codec value body) ∧
      (reason = none → state.encode.length ≤ maxStateBytes ∧
        ∀ configCodec : ConfigCodec Rules, configCodec.Lawful →
        ∀ given ordinaryModels decisionModels compiled,
          compile configCodec given ordinaryModels decisionModels = .ok compiled →
        ∀ entry ∈ compiled.entries, ∀ presets, (∀ preset ∈ presets, preset ∈ entry.presets) →
          (buildDecisionRequest configCodec compiled presets state).2.reason ≠
            some .requestTooLarge) := by
  obtain ⟨state, reason, hextract, hsize, htask, hfits⟩ := extract_spec codec value body
  refine ⟨state, reason, hextract, hsize, htask, fun hreason => ⟨hfits hreason, ?_⟩⟩
  intro configCodec hcodec given ordinaryModels decisionModels compiled hcompile entry hentry
    presets hpresets
  obtain ⟨hvalid, hbudgeted⟩ := compile_budgeted configCodec hcompile
  rw [buildDecisionRequest_fits configCodec hcodec hvalid (hbudgeted entry hentry) hpresets
    (hfits hreason)]
  exact nofun

theorem sampleDecision_fits : taskBudget < (letters 12000).length ∧ ∃ state,
    extract (sampleCodec (letters 12000)) .openAICompletions (sampleBody (letters 12000)) =
      some (state, none) ∧
    compile sampleConfigCodec sampleConfig sampleModels (fun _ => true) = .ok sampleCompiled ∧
    (buildDecisionRequest sampleConfigCodec sampleCompiled samplePresets state).2.reason ≠
      some .requestTooLarge := by
  have hlength : (letters 12000).length = 12000 := length_replicate
  obtain ⟨state, reason, hextract, -, htask, hfits⟩ := @decisions_fit_budgets Unit Unit
    (sampleCodec (letters 12000)) .openAICompletions (sampleBody (letters 12000))
  obtain rfl := htask.mpr (sampleBody_task (by
    rw [trimSpace_letters]
    exact ne_nil_of_length_eq_add_one hlength))
  refine ⟨by rw [hlength]; decide, state, hextract, sampleConfig_compiles, ?_⟩
  exact (hfits rfl).2 sampleConfigCodec sampleConfigCodec_lawful _ _ _ sampleCompiled
    sampleConfig_compiles _ (.head _) samplePresets fun _ hpreset => hpreset

end EchoJoyGateway.AutoModel
