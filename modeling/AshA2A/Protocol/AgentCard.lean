import AshA2A.Json.Reading

/-! The agent card and its JSON. A field holds whatever the decoder found there, `nil` being
JSON's null; an optional key of a map is absent or holds a value. -/

namespace AshA2A.Protocol

open Json (record)

structure AgentExtension where
  uri : Json
  description : Json := .null
  params : Json := .null
  required : Json := .bool false
  deriving Repr

structure Capabilities where
  streaming : Option Json := none
  pushNotifications : Option Json := none
  stateTransitionHistory : Option Json := none
  extendedAgentCard : Option Json := none
  extensions : Option (List AgentExtension) := none
  deriving Repr

structure Skill where
  id : Json
  name : Json
  description : Json
  tags : Json
  inputModes : Option Json := none
  outputModes : Option Json := none
  securityRequirements : Option (List Json) := none
  deriving Repr

structure Provider where
  organization : Option Json := none
  url : Option Json := none
  deriving Repr

structure SupportedInterface where
  url : Option Json := none
  protocolBinding : Option Json := none
  protocolVersion : Option Json := none
  deriving Repr

inductive SecurityScheme where
  /-- The location is the struct's `in`. -/
  | apiKey (name location : Json)
  | httpAuth (scheme : Json)
  | oauth2 (flows oauth2MetadataUrl : Json)
  | openIdConnect (openIdConnectUrl : Json)
  | mutualTLS
  deriving Repr

/-- `Version.protocol_version/0`. -/
def protocolVersion : Json := .string "1.0"

structure AgentCard where
  name : Json
  description : Json
  url : Json
  version : Json
  skills : List Skill
  provider : Option Provider := none
  documentationUrl : Json := .null
  iconUrl : Json := .null
  preferredTransport : Json := .null
  protocolVersion : Json := Protocol.protocolVersion
  capabilities : Capabilities := {}
  defaultInputModes : Json := .array [.string "text/plain"]
  defaultOutputModes : Json := .array [.string "text/plain"]
  supportedInterfaces : List SupportedInterface := []
  securitySchemes : List (String × SecurityScheme) := []
  security : List Json := []
  signatures : Json := .array []
  deriving Repr

/-! ## Types -/

def isString : Json → Bool
  | .string _ => true
  | _ => false

def isBool : Json → Bool
  | .bool _ => true
  | _ => false

/-- `[String.t()]`. -/
def isStrings : Json → Bool
  | .array items => items.all isString
  | _ => false

/-- `security_requirement()`. -/
def isRequirement : Json → Bool
  | .object entries => entries.all fun entry => isStrings entry.2
  | _ => false

structure AgentExtension.Typed (extension : AgentExtension) : Prop where
  uri : isString extension.uri
  description : extension.description = .null ∨ isString extension.description
  params : extension.params = .null ∨ extension.params.isObject
  required : isBool extension.required

structure Capabilities.Typed (capabilities : Capabilities) : Prop where
  streaming : ∀ value ∈ capabilities.streaming, isBool value
  pushNotifications : ∀ value ∈ capabilities.pushNotifications, isBool value
  stateTransitionHistory : ∀ value ∈ capabilities.stateTransitionHistory, isBool value
  extendedAgentCard : ∀ value ∈ capabilities.extendedAgentCard, isBool value
  extensions : ∀ extensions ∈ capabilities.extensions, ∀ extension ∈ extensions, extension.Typed

structure Skill.Typed (skill : Skill) : Prop where
  id : isString skill.id
  name : isString skill.name
  description : isString skill.description
  tags : isStrings skill.tags
  inputModes : ∀ modes ∈ skill.inputModes, isStrings modes
  outputModes : ∀ modes ∈ skill.outputModes, isStrings modes
  securityRequirements : ∀ requirements ∈ skill.securityRequirements,
    ∀ requirement ∈ requirements, isRequirement requirement

structure Provider.Typed (provider : Provider) : Prop where
  organization : ∃ text, provider.organization = some (.string text)
  url : ∃ text, provider.url = some (.string text)

structure SupportedInterface.Typed (interface : SupportedInterface) : Prop where
  url : ∃ text, interface.url = some (.string text)
  protocolBinding : ∃ text, interface.protocolBinding = some (.string text)
  protocolVersion : ∃ text, interface.protocolVersion = some (.string text)

def SecurityScheme.Typed : SecurityScheme → Prop
  | .apiKey name location => isString name ∧ isString location
  | .httpAuth scheme => isString scheme
  | .oauth2 flows metadata => flows.isObject ∧ (metadata = .null ∨ isString metadata)
  | .openIdConnect url => isString url
  | .mutualTLS => True

/-- `AgentCard.t()`, which the callers of the encoder promise. -/
structure AgentCard.Typed (card : AgentCard) : Prop where
  name : isString card.name
  description : isString card.description
  url : isString card.url
  version : isString card.version
  skills : ∀ skill ∈ card.skills, skill.Typed
  provider : ∀ provider ∈ card.provider, provider.Typed
  documentationUrl : card.documentationUrl = .null ∨ isString card.documentationUrl
  iconUrl : card.iconUrl = .null ∨ isString card.iconUrl
  preferredTransport : card.preferredTransport = .null ∨ isString card.preferredTransport
  protocolVersion : card.protocolVersion = .null ∨ isString card.protocolVersion
  capabilities : card.capabilities.Typed
  defaultInputModes : isStrings card.defaultInputModes
  defaultOutputModes : isStrings card.defaultOutputModes
  supportedInterfaces : ∀ interface ∈ card.supportedInterfaces, interface.Typed
  securitySchemes : ∀ scheme ∈ card.securitySchemes, scheme.2.Typed
  security : ∀ requirement ∈ card.security, isRequirement requirement
  signatures : ∃ entries, card.signatures = .array entries ∧ ∀ entry ∈ entries, entry.isObject

namespace AgentCard

/-- `raised` stands for every exception. -/
inductive Fault where
  | raised
  | missingField (name : String)
  | invalidField (name : String)
  deriving Repr, DecidableEq

/-! ## Encoding -/

/-- `put_unless_nil/3`. -/
def unlessNil : Json → Option Json
  | .null => none
  | value => some value

/-- `put_unless_empty/3`. -/
def unlessEmpty : Json → Option Json
  | .array [] | .object [] => none
  | value => some value

/-- `card_field/4` where no option is given: the default stands in for `nil`. -/
def cardField (value fallback : Json) : Json := (unlessNil value).getD fallback

/-- A key of `encode_known_keys/2`. -/
def known (value : Option Json) : Option Json := value.bind unlessNil

/-- What `||` and `if` take for true. -/
def truthy : Option Json → Option Json
  | none | some .null | some (.bool false) => none
  | value => value

def encodeSecurityRequirement (requirement : Json) : Except Fault Json :=
  match requirement with
  | .object flat =>
    match requirement.get? "schemes" with
    -- An entry of the wire's shape passes through untouched.
    | some _ => .ok requirement
    | none => .ok (.object [("schemes", .object (flat.map (Prod.map id fun scopes => .object [("list", scopes)])))])
  | _ => .error .raised

def encodeSecurityRequirements (requirements : List Json) : Except Fault (List Json) :=
  requirements.mapM encodeSecurityRequirement

def encodeSkill (skill : Skill) : Except Fault Json := do
  let requirements ← encodeSecurityRequirements (skill.securityRequirements.getD [])
  return record
    [("id", skill.id), ("name", skill.name), ("description", skill.description), ("tags", skill.tags),
      ("inputModes", skill.inputModes.bind unlessNil), ("outputModes", skill.outputModes.bind unlessNil),
      ("securityRequirements", unlessEmpty (.array requirements))]

def encodeAgentExtension (extension : AgentExtension) : Json :=
  record [("uri", extension.uri), ("required", extension.required),
    ("description", unlessNil extension.description), ("params", unlessNil extension.params)]

/-- The state transition history is never emitted. -/
def encodeCapabilities (capabilities : Capabilities) : Json :=
  record [("streaming", known capabilities.streaming), ("pushNotifications", known capabilities.pushNotifications),
    ("extendedAgentCard", known capabilities.extendedAgentCard),
    ("extensions", unlessEmpty (.array ((capabilities.extensions.getD []).map encodeAgentExtension)))]

def encodeInterface (interface : SupportedInterface) : Json :=
  record [("url", known interface.url), ("protocolBinding", known interface.protocolBinding),
    ("protocolVersion", known interface.protocolVersion)]

def encodeProvider (provider : Provider) : Json :=
  record [("organization", known provider.organization), ("url", known provider.url)]

def encodeSecurityScheme : SecurityScheme → Json
  | .apiKey name location => .object [("apiKeySecurityScheme", .object [("name", name), ("location", location)])]
  | .httpAuth scheme => .object [("httpAuthSecurityScheme", .object [("scheme", scheme)])]
  | .oauth2 flows metadata =>
    .object [("oauth2SecurityScheme", record [("flows", flows), ("oauth2MetadataUrl", truthy metadata)])]
  | .openIdConnect url => .object [("openIdConnectSecurityScheme", .object [("openIdConnectUrl", url)])]
  | .mutualTLS => .object [("mtlsSecurityScheme", .object [])]

/-- The interfaces of the card, or one derived from the URL. -/
def interfaces (card : AgentCard) : List SupportedInterface :=
  match card.supportedInterfaces with
  | [] => [⟨some card.url, some (.string "JSONRPC"), some Protocol.protocolVersion⟩]
  | interfaces => interfaces

/-- `encode_agent_card(card, url: card.url)`. -/
def encodeAgentCard (card : AgentCard) : Except Fault Json := do
  let skills ← card.skills.mapM encodeSkill
  let security ← encodeSecurityRequirements card.security
  return record
    [("name", card.name), ("description", card.description), ("version", card.version),
      ("skills", some (.array skills)), ("capabilities", encodeCapabilities card.capabilities),
      ("defaultInputModes", cardField card.defaultInputModes (.array [.string "text/plain"])),
      ("defaultOutputModes", cardField card.defaultOutputModes (.array [.string "text/plain"])),
      ("supportedInterfaces", some (.array (card.interfaces.map encodeInterface))),
      ("provider", card.provider.map encodeProvider), ("documentationUrl", unlessNil card.documentationUrl),
      ("iconUrl", unlessNil card.iconUrl),
      ("securitySchemes", unlessEmpty (.object (card.securitySchemes.map (Prod.map id encodeSecurityScheme)))),
      ("securityRequirements", unlessEmpty (.array security)),
      ("signatures", unlessEmpty (cardField card.signatures (.array [])))]

/-! ## Decoding -/

/-- `Map.new/2` where every key stays. -/
def mapNew {α β : Type} (entries : List (String × α)) (decode : α → Except Fault β) :
    Except Fault (List (String × β)) :=
  entries.mapM fun (name, value) => return (name, ← decode value)

/-- `Map.fetch!/2`. -/
def fetch (json : Json) (key : String) : Except Fault Json :=
  match json.get? key with
  | some value => .ok value
  | none => .error .raised

/-- `Map.get/3`. -/
def getOr (json : Json) (key : String) (fallback : Json) : Json := (json.get? key).getD fallback

def requireField (json : Json) (name : String) : Except Fault Json :=
  if json.isObject then
    match json.get? name with
    | some value => .ok value
    | none => .error (.missingField name)
  else .error .raised

def decodeScopes (scopes : Json) : Except Fault Json :=
  match scopes with
  | .array _ => .ok scopes
  | .object _ =>
    match scopes.get? "list" with
    | some (.array scopes) => .ok (.array scopes)
    | _ => .error .raised
  | _ => .error .raised

def decodeRequirement (requirement : Json) : Except Fault Json :=
  match requirement with
  | .object _ =>
    match requirement.get? "schemes" with
    | some (.object schemes) => return .object (← mapNew schemes decodeScopes)
    | _ => .ok requirement
  | _ => .error .raised

/-- What is no list is wrapped in one and stays as it is. -/
def decodeCardSecurity : Json → Except Fault (List Json)
  | .array requirements => requirements.mapM decodeRequirement
  | .null => .ok []
  | other => .ok [other]

def decodeSkillSecurity (json : Json) : Except Fault (Option (List Json)) :=
  match (json.get? "securityRequirements").bind unlessNil with
  | some requirements => (decodeCardSecurity requirements).map some
  | none => .ok none

def decodeSkill (json : Json) : Except Fault Skill := do
  let id ← requireField json "id"
  let name ← requireField json "name"
  let description ← requireField json "description"
  let requirements ← decodeSkillSecurity json
  return {
    id, name, description
    tags := getOr json "tags" (.array [])
    inputModes := json.get? "inputModes"
    outputModes := json.get? "outputModes"
    securityRequirements := requirements }

def decodeCardSkills : Json → Except Fault (List Skill)
  | .array skills => skills.mapM decodeSkill
  | _ => .error (.invalidField "skills")

def decodeAgentExtension (json : Json) : Except Fault AgentExtension := do
  return ⟨← fetch json "uri", getOr json "description" .null, getOr json "params" .null,
    getOr json "required" (.bool false)⟩

def decodeExtensions (json : Json) : Except Fault (Option (List AgentExtension)) :=
  match json.get? "extensions" with
  | some (.array (extension :: extensions)) => ((extension :: extensions).mapM decodeAgentExtension).map some
  | _ => .ok none

def decodeCardCapabilities (json : Json) : Except Fault Capabilities :=
  match json with
  | .null => .ok {}
  | .object _ => do
    let extensions ← decodeExtensions json
    return ⟨known (json.get? "streaming"), known (json.get? "pushNotifications"),
      known (json.get? "stateTransitionHistory"), known (json.get? "extendedAgentCard"), extensions⟩
  | _ => .error .raised

def decodeInterface (json : Json) : Except Fault SupportedInterface :=
  if json.isObject then
    .ok ⟨known (json.get? "url"), known (json.get? "protocolBinding"), known (json.get? "protocolVersion")⟩
  else .error .raised

def decodeCardInterfaces : Json → Except Fault (List SupportedInterface)
  | .array interfaces => interfaces.mapM decodeInterface
  | _ => .ok []

def decodeCardProvider (json : Json) : Except Fault (Option Provider) :=
  match json with
  | .null => .ok none
  | .object _ => .ok (some ⟨known (json.get? "organization"), known (json.get? "url")⟩)
  | _ => .error .raised

/-- The first key that names a scheme decides. -/
def decodeSecurityScheme (json : Json) : Except Fault SecurityScheme :=
  match json.get? "apiKeySecurityScheme", json.get? "httpAuthSecurityScheme", json.get? "oauth2SecurityScheme",
    json.get? "openIdConnectSecurityScheme", json.get? "mtlsSecurityScheme" with
  | some inner, _, _, _, _ => do
    let name ← fetch inner "name"
    match truthy (inner.get? "location") with
    | some location => return .apiKey name location
    | none => return .apiKey name (← fetch inner "in")
  | _, some inner, _, _, _ => return .httpAuth (← fetch inner "scheme")
  | _, _, some inner, _, _ => return .oauth2 (← fetch inner "flows") (getOr inner "oauth2MetadataUrl" .null)
  | _, _, _, some inner, _ => return .openIdConnect (← fetch inner "openIdConnectUrl")
  | _, _, _, _, some _ => return .mutualTLS
  | _, _, _, _, _ => .error .raised

def decodeCardSecuritySchemes : Json → Except Fault (List (String × SecurityScheme))
  | .object schemes => mapNew schemes decodeSecurityScheme
  | _ => .error .raised

/-- The URL of the first interface, if it is a text. -/
def preferredInterfaceUrl : List SupportedInterface → Json
  | ⟨some (.string url), _, _⟩ :: _ => .string url
  | _ => .null

def decodeAgentCard (json : Json) : Except Fault AgentCard := do
  let name ← requireField json "name"
  let description ← requireField json "description"
  let version ← requireField json "version"
  let skills ← requireField json "skills"
  let skills ← decodeCardSkills skills
  let interfaces ← decodeCardInterfaces (getOr json "supportedInterfaces" (.array []))
  let capabilities ← decodeCardCapabilities (getOr json "capabilities" (.object []))
  let provider ← decodeCardProvider (getOr json "provider" .null)
  let schemes ← decodeCardSecuritySchemes (getOr json "securitySchemes" (.object []))
  -- The deprecated spelling of earlier peers is read too.
  let security ← decodeCardSecurity
    ((truthy (json.get? "securityRequirements")).getD (getOr json "security" (.array [])))
  return {
    name, description, version, skills, capabilities, provider, security
    url := (truthy (json.get? "url")).getD (preferredInterfaceUrl interfaces)
    defaultInputModes := getOr json "defaultInputModes" (.array [.string "text/plain"])
    defaultOutputModes := getOr json "defaultOutputModes" (.array [.string "text/plain"])
    documentationUrl := getOr json "documentationUrl" .null
    iconUrl := getOr json "iconUrl" .null
    protocolVersion := getOr json "protocolVersion" .null
    supportedInterfaces := interfaces
    securitySchemes := schemes
    signatures := getOr json "signatures" (.array []) }

end AgentCard

end AshA2A.Protocol
