import EchoJoyGateway.State.Snapshot
import Mathlib.Data.List.Sort

/-!
# Compilation of a snapshot

`Compile` of `internal/state/snapshot.go`, for the two route indexes and the two
tables of groups. The parts of the compilation that scheduling does not read
(access keys, proxies, prices, automatic models) can only refuse the input, and
stand here as answers of the input.
-/

namespace EchoJoyGateway.State

structure GroupConfig where
  id : Nat
  name : String
  priority : Int
  channelID : String
  connectionType : String
  params : String
  validationProtocol : Option Protocol
  models : List ModelConfig
  weightManual : Option Int
  enabled : Bool

structure ChannelDescriptor where
  clientProtocols : List Protocol
  connectionType : String

structure ChannelRegistry where
  get : String → Option ChannelDescriptor
  resolve : String → String → Except String ResolvedTarget

variable (registry : ChannelRegistry)

def ChannelRegistry.supportsConnectionType (id : String) (connectionType : String) : Bool :=
  match registry.get id with
  | none => false
  | some descriptor => descriptor.connectionType == trimSpace connectionType

/-- `settings` answers for what `Compile` does before its loop over the groups, `groupSettings` for
the settings of a group, with whether it accepts Responses over WebSocket. -/
structure CompileInput where
  channelRegistry : ChannelRegistry
  groups : List GroupConfig
  settings : Except String RouteStrategy
  groupSettings : GroupConfig → Except String Bool

namespace ResolvedTarget

def modeForModel (t : ResolvedTarget) (p : Protocol) (operation : Operation)
    (upstreamModel : String) : Option RouteMode :=
  match t.modes p operation with
  | none => none
  | some mode =>
    match t.resolvers p operation with
    | none => some mode
    | some resolver => resolver upstreamModel mode

def operations (t : ResolvedTarget) (p : Protocol) : List Operation :=
  [Operation.chatCompletion, .countTokens, .decisionsCreate, .embeddingsCreate, .imagesEdit,
    .imagesGenerate, .listModels, .probe, .rerank, .responsesCancel, .responsesCompact,
    .responsesCreate, .responsesDelete, .responsesInputItems, .responsesInputTokens,
    .responsesPassthrough, .responsesRetrieve, .webSearch].filter
      fun operation => (t.modes p operation).isSome

end ResolvedTarget

def routeText (p : Protocol) (operation : Operation) : String :=
  p.text.quote ++ "/" ++ operation.text.quote

variable (group : GroupConfig)

def noModelEntry (target : ResolvedTarget) (p : Protocol) (operation : Operation)
    (mode : RouteMode) : RouteEntry :=
  ⟨p, operation, noModelRouteKey, ⟨group.id, "", mode, target⟩⟩

def modelEntry (target : ResolvedTarget) (p : Protocol) (operation : Operation)
    (model : ModelConfig) : Except String RouteEntry :=
  match target.modeForModel p operation model.id with
  | none =>
    .error (s!"compile group {group.id} channel has no route mode for {routeText p operation} " ++
      s!"model {model.id.quote}")
  | some mode =>
    .ok ⟨p, operation, externalModelName model, ⟨group.id, trimSpace model.id, mode, target⟩⟩

def operationEntries (target : ResolvedTarget) (p : Protocol) (operation : Operation) :
    Except String (List RouteEntry) :=
  match operation, target.modes p operation with
  | .listModels, _ | .probe, _ => .ok []
  | _, none =>
    .error s!"compile group {group.id} channel has no route mode for {routeText p operation}"
  | .responsesRetrieve, some mode | .responsesDelete, some mode | .responsesCancel, some mode
  | .responsesInputItems, some mode => .ok [noModelEntry group target p operation mode]
  | .responsesPassthrough, some mode => do
    let entries ← group.models.mapM (modelEntry group target p operation)
    .ok (noModelEntry group target p operation mode :: entries)
  | .unset, _ | .other _, _ =>
    .error (s!"compile group {group.id} channel has unsupported routable operation " ++
      operation.text.quote)
  | _, some _ => group.models.mapM (modelEntry group target p operation)

/-- What `appendExecutionTargets` appends. A group without models stays outside
the indexes, also for operations without a model. -/
def executionTargets :
    Except String (List RouteEntry) :=
  match registry.resolve group.channelID group.params, registry.get group.channelID with
  | .error message, _ => .error s!"compile group {group.id} channel: {message}"
  | .ok _, none =>
    .error s!"compile group {group.id} channel: unknown channel {group.channelID.quote}"
  | .ok target, some descriptor =>
    if group.models = [] then .ok []
    else do
      let entries ← descriptor.clientProtocols.mapM fun p => do
        let entries ← (target.operations p).mapM (operationEntries group target p)
        .ok entries.flatten
      .ok entries.flatten

def validateModels (groupID : Nat) (seen : List (String × String)) :
    List ModelConfig → Except String Unit
  | [] => .ok ()
  | model :: rest =>
    if trimSpace model.id = "" then .error s!"group {groupID} model id is required"
    else
      let mapping := (externalModelName model, trimSpace model.id)
      if mapping ∈ seen then
        .error s!"group {groupID} has duplicate model mapping {mapping.1.quote} -> {model.id.quote}"
      else validateModels groupID (mapping :: seen) rest

def validateGroup (seen : List Nat) (group : GroupConfig) :
    Except String Unit :=
  if group.id = 0 then .error "group id is required"
  else if group.id ∈ seen then .error s!"duplicate group id {group.id}"
  else if group.channelID = "" then .error s!"group {group.id} channel id is required"
  else if (registry.get group.channelID).isNone then
    .error s!"group {group.id} has unknown channel {group.channelID.quote}"
  else if registry.supportsConnectionType group.channelID (trimSpace group.connectionType) = false
  then
    .error (s!"group {group.id} channel {group.channelID.quote} does not support " ++
      s!"connection type {(trimSpace group.connectionType).quote}")
  else
    match registry.resolve group.channelID group.params with
    | .error message => .error s!"group {group.id} channel {group.channelID.quote}: {message}"
    | .ok target =>
      let probed := match group.validationProtocol with
        | none => true
        | some p =>
          (target.modes p .probe).isSome && trimSpace group.connectionType != "subscription"
      if probed = false then .error s!"group {group.id} validation protocol is unsupported"
      else
        match validateManualWeight s!"group {group.id}" group.weightManual with
        | .error message => .error message
        | .ok () => validateModels group.id [] group.models

/-- `validateCompileInput`, its loop over the groups. -/
def validateGroups (registry : ChannelRegistry) (seen : List Nat) :
    List GroupConfig → Except String Unit
  | [] => .ok ()
  | group :: rest =>
    match validateGroup registry seen group with
    | .error message => .error message
    | .ok () => validateGroups registry (group.id :: seen) rest

def GroupConfig.catalogView : GroupCatalogView :=
  ⟨group.id, group.name, group.priority, group.enabled, group.weightManual⟩

def GroupConfig.view (websocket : Bool) : GroupView :=
  ⟨group.id, group.priority, group.models, websocket, group.weightManual⟩

def compileGroup (input : CompileInput) (snapshot : ConfigSnapshot) (group : GroupConfig) :
    Except String ConfigSnapshot :=
  match executionTargets input.channelRegistry group, input.groupSettings group with
  | .error message, _ => .error message
  | .ok _, .error message => .error message
  | .ok targets, .ok websocket =>
    let listed : ConfigSnapshot :=
      { snapshot with
        groupCatalog := snapshot.groupCatalog ++ [group.catalogView]
        executionRouteCatalog := snapshot.executionRouteCatalog ++ targets }
    if group.enabled then
      .ok { listed with
        executionCandidates := snapshot.executionCandidates ++ targets
        groups := snapshot.groups ++ [group.view websocket] }
    else .ok listed

def compileGroups (input : CompileInput) (snapshot : ConfigSnapshot) :
    List GroupConfig → Except String ConfigSnapshot
  | [] => .ok snapshot
  | group :: rest =>
    match compileGroup input snapshot group with
    | .error message => .error message
    | .ok snapshot => compileGroups input snapshot rest

/-- Native targets first, then by group and by upstream model. -/
def routeBefore (left right : RouteEntry) : Bool :=
  if left.target.mode ≠ right.target.mode then left.target.mode == .native
  else if left.target.groupID ≠ right.target.groupID then
    decide (left.target.groupID < right.target.groupID)
  else decide (left.target.upstreamModelID ≤ right.target.upstreamModelID)

def sortExecutionRouteIndex (index : ExecutionCandidateIndex) : ExecutionCandidateIndex :=
  index.insertionSort fun left right => routeBefore left right = true

/-- The revision is given by the manager that publishes the snapshot. -/
def compile (input : CompileInput) (revision : Nat) : Except String ConfigSnapshot :=
  match validateGroups input.channelRegistry [] input.groups, input.settings with
  | .error message, _ => .error message
  | .ok (), .error message => .error message
  | .ok (), .ok strategy =>
    match compileGroups input ⟨revision, strategy, [], [], [], []⟩ input.groups with
    | .error message => .error message
    | .ok snapshot =>
      .ok { snapshot with
        executionCandidates := sortExecutionRouteIndex snapshot.executionCandidates
        executionRouteCatalog := sortExecutionRouteIndex snapshot.executionRouteCatalog }

end EchoJoyGateway.State
