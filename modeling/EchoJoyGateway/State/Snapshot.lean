import EchoJoyGateway.State.Registry

/-!
# Configuration snapshots

The part of `internal/state/snapshot.go` that scheduling reads, with the
protocol, operation and route vocabulary of `internal/protocol`,
`internal/execution` and `internal/channel`. In each enumeration `unset` is the
empty string and `other` the values that no constant names.
-/

namespace EchoJoyGateway.State

inductive Protocol where
  | openAICompletions
  | openAIResponses
  | openAIImages
  | openAIEmbeddings
  | rerank
  | decisions
  | anthropic
  | gemini
  | geminiEmbeddings
  | other (name : String)
  deriving DecidableEq

def Protocol.text : Protocol → String
  | .openAICompletions => "openai-completions"
  | .openAIResponses => "openai-responses"
  | .openAIImages => "openai-images"
  | .openAIEmbeddings => "openai-embeddings"
  | .rerank => "rerank"
  | .decisions => "decisions"
  | .anthropic => "anthropic"
  | .gemini => "gemini"
  | .geminiEmbeddings => "gemini-embeddings"
  | .other name => name

def Protocol.valid : Protocol → Bool
  | .other _ => false
  | _ => true

inductive Operation where
  | unset
  | chatCompletion
  | responsesCreate
  | responsesRetrieve
  | responsesDelete
  | responsesCancel
  | responsesInputItems
  | responsesCompact
  | responsesInputTokens
  | countTokens
  | responsesPassthrough
  | webSearch
  | imagesGenerate
  | imagesEdit
  | embeddingsCreate
  | rerank
  | decisionsCreate
  | listModels
  | probe
  | other (name : String)
  deriving DecidableEq

def Operation.text : Operation → String
  | .unset => ""
  | .chatCompletion => "chat_completion"
  | .responsesCreate => "responses_create"
  | .responsesRetrieve => "responses_retrieve"
  | .responsesDelete => "responses_delete"
  | .responsesCancel => "responses_cancel"
  | .responsesInputItems => "responses_input_items"
  | .responsesCompact => "responses_compact"
  | .responsesInputTokens => "responses_input_tokens"
  | .countTokens => "count_tokens"
  | .responsesPassthrough => "responses_passthrough"
  | .webSearch => "web_search"
  | .imagesGenerate => "images_generate"
  | .imagesEdit => "images_edit"
  | .embeddingsCreate => "embeddings_create"
  | .rerank => "rerank"
  | .decisionsCreate => "decisions_create"
  | .listModels => "list_models"
  | .probe => "probe"
  | .other name => name

def Operation.valid : Operation → Bool
  | .unset | .other _ => false
  | _ => true

def Operation.usesModelCooldown : Operation → Bool
  | .chatCompletion | .responsesCreate | .responsesCompact | .imagesGenerate | .imagesEdit
  | .embeddingsCreate | .rerank | .decisionsCreate => true
  | _ => false

/-- Channel compilation refuses every other route mode. -/
inductive RouteMode where
  | native
  | converted
  deriving DecidableEq

inductive RouteRequirement where
  | unset
  | any
  | native
  | other (name : String)
  deriving DecidableEq

namespace RouteRequirement

def normalize : RouteRequirement → RouteRequirement
  | .unset => .any
  | requirement => requirement

def valid (requirement : RouteRequirement) : Bool :=
  match requirement.normalize with
  | .any | .native => true
  | _ => false

def allows (requirement : RouteRequirement) (mode : RouteMode) : Bool :=
  requirement.valid && (requirement.normalize == .any || mode == .native)

end RouteRequirement

inductive ResponsesStorePreference where
  | unset
  | preferStored
  | requireStored
  | other (name : String)
  deriving DecidableEq

def ResponsesStorePreference.valid : ResponsesStorePreference → Bool
  | .other _ => false
  | _ => true

structure WebsocketCapabilities where
  native : Bool
  continuation : Bool
  storedResponses : Bool
  prewarm : Bool
  multiplex : Bool
  deriving DecidableEq

def WebsocketCapabilities.supports (c required : WebsocketCapabilities) : Bool :=
  c.native && (!required.continuation || c.continuation) &&
    (!required.storedResponses || c.storedResponses) &&
    (!required.prewarm || c.prewarm) && (!required.multiplex || c.multiplex)

inductive ResponsesStoreHandling where
  | unset
  | upstreamManaged
  | stateless
  deriving DecidableEq

/-- A target of a channel. A resolver that answers with an invalid mode
answers `none`. -/
structure ResolvedTarget where
  responsesWebsocket : WebsocketCapabilities
  channelID : String
  modes : Protocol → Operation → Option RouteMode
  resolvers : Protocol → Operation → Option (String → RouteMode → Option RouteMode)
  responsesStoreHandlings : Protocol → Operation → ResponsesStoreHandling

def ResolvedTarget.supportsResponsesLifecycle (t : ResolvedTarget) : Bool :=
  [Operation.responsesRetrieve, .responsesDelete, .responsesCancel, .responsesInputItems].all
    fun operation => t.modes .openAIResponses operation == some .native

structure RouteTarget where
  groupID : Nat
  upstreamModelID : String
  mode : RouteMode
  resolvedTarget : ResolvedTarget

structure RouteEntry where
  clientProtocol : Protocol
  operation : Operation
  externalModel : String
  target : RouteTarget

/-- The three nested maps of the source, flattened. A level of theirs is only
ever made for a target that is then appended, so it exists when an entry
below it does. -/
abbrev ExecutionCandidateIndex := List RouteEntry

def noModelRouteKey : String := ""

namespace ExecutionCandidateIndex

def byProtocol (index : ExecutionCandidateIndex) (p : Protocol) : ExecutionCandidateIndex :=
  index.filter fun entry => entry.clientProtocol == p

def byOperation (index : ExecutionCandidateIndex) (operation : Operation) :
    ExecutionCandidateIndex :=
  index.filter fun entry => entry.operation == operation

def byModel (index : ExecutionCandidateIndex) (model : String) : List RouteTarget :=
  (index.filter fun entry => entry.externalModel == model).map RouteEntry.target

end ExecutionCandidateIndex

structure ModelConfig where
  id : String
  aliasName : String
  deriving DecidableEq

def externalModelName (model : ModelConfig) : String :=
  if trimSpace model.aliasName ≠ "" then trimSpace model.aliasName else trimSpace model.id

inductive AccessKeyStatus where
  | active
  | disabled
  | other (name : String)
  deriving DecidableEq

/-- The three sets of the source; an empty one filters nothing. -/
structure FilterSet where
  groups : List Nat
  protocols : List Protocol
  models : List String

structure AccessKeyView where
  status : AccessKeyStatus
  filters : FilterSet

structure GroupView where
  id : Nat
  priority : Int
  models : List ModelConfig
  responsesWebsocketEnabled : Bool
  weightManual : Option Int

structure GroupCatalogView where
  id : Nat
  name : String
  priority : Int
  enabled : Bool
  weightManual : Option Int

inductive RouteStrategy where
  | nativeFirst
  | weightedMix
  deriving DecidableEq

structure ConfigSnapshot where
  revision : Nat
  routeStrategy : RouteStrategy
  executionCandidates : ExecutionCandidateIndex
  executionRouteCatalog : ExecutionCandidateIndex
  groups : List GroupView
  groupCatalog : List GroupCatalogView

namespace ConfigSnapshot

/-- `snapshot.Groups[id]`. -/
def group (snapshot : ConfigSnapshot) (id : Nat) : Option GroupView :=
  snapshot.groups.find? fun view => view.id == id

/-- `snapshot.GroupCatalog[id]`. -/
def catalogView (snapshot : ConfigSnapshot) (id : Nat) : Option GroupCatalogView :=
  snapshot.groupCatalog.find? fun view => view.id == id

/-- `snapshot.Groups[id].ResponsesWebsocketEnabled`. -/
def websocketEnabled (snapshot : ConfigSnapshot) (id : Nat) : Bool :=
  match snapshot.group id with
  | none => false
  | some view => view.responsesWebsocketEnabled

end ConfigSnapshot

end EchoJoyGateway.State
