import AshA2A.Protocol.AgentCard
import AshA2A.Term

/-! The card codec goes along with the readings of a text: what it decodes from the value read
is the card read, and where nothing is moved it encodes the card read as the value read. -/

namespace AshA2A

section Lists

variable {ε α β : Type}

/-- Decoding item by item goes along with a change of the items. -/
theorem mapM_ok_map {items : List α} {decode : α → Except ε β} {results : List β} {change : α → α} {after : β → β}
    (along : ∀ item ∈ items, ∀ result, decode item = .ok result → decode (change item) = .ok (after result))
    (decoded : items.mapM decode = .ok results) : (items.map change).mapM decode = .ok (results.map after) := by
  obtain ⟨pairs, rfl, rfl, each⟩ := mapM_ok_iff.mp decoded
  refine mapM_ok_iff.mpr ⟨pairs.map (Prod.map change after), by simp, by simp, fun pair member => ?_⟩
  obtain ⟨before, given, rfl⟩ := List.mem_map.mp member
  exact along before.1 (List.mem_map_of_mem given) before.2 (each before given)

/-- Items that are decoded from their own encoding. -/
theorem mapM_back {items : List β} {encode : β → Except ε α} {decode : α → Except ε β}
    (back : ∀ item ∈ items, ∃ text, encode item = .ok text ∧ decode text = .ok item) :
    ∃ texts, items.mapM encode = .ok texts ∧ texts.mapM decode = .ok items := by
  induction items with
  | nil => exact ⟨[], rfl, rfl⟩
  | cons item rest ih =>
    obtain ⟨⟨text, encoded, decoded⟩, others⟩ := List.forall_mem_cons.mp back
    obtain ⟨texts, each, read⟩ := ih others
    refine ⟨text :: texts, ?_, ?_⟩
    · rw [List.mapM_cons, encoded, each]
      rfl
    · rw [List.mapM_cons, decoded, read]
      rfl

theorem mapM_ok_of_map {items : List β} {decode : α → Except ε β} {encode : β → α}
    (back : ∀ item ∈ items, decode (encode item) = .ok item) : (items.map encode).mapM decode = .ok items := by
  refine mapM_ok_iff.mpr ⟨items.map fun item => (encode item, item), by simp [Function.comp_def],
    by simp [Function.comp_def], ?_⟩
  intro pair member
  obtain ⟨item, given, rfl⟩ := List.mem_map.mp member
  exact back item given

theorem mapM_map_map {items : List α} {encode : α → Except ε β} {change : α → α} {after : β → β}
    (along : ∀ item, encode (change item) = (encode item).map after) :
    (items.map change).mapM encode = (items.mapM encode).map (List.map after) := by
  induction items with
  | nil => rfl
  | cons item items ih =>
    rw [List.map_cons, List.mapM_cons, List.mapM_cons, along, ih]
    cases encode item with
    | error fault => rfl
    | ok first => cases items.mapM encode <;> rfl

end Lists

namespace Protocol

open Json (Reading record)

attribute [simp] Reading.null Reading.bool Reading.string Reading.array Reading.object

namespace AgentCard

section Entries

variable {α β : Type} {entries : List (String × α)} {decode : α → Except Fault β} {results : List (String × β)}

theorem mapNew_ok_iff : mapNew entries decode = .ok results ↔ ∃ pairs : List (String × (α × β)),
    entries = pairs.map (Prod.map id Prod.fst) ∧ results = pairs.map (Prod.map id Prod.snd) ∧
      ∀ pair ∈ pairs, decode pair.2.1 = .ok pair.2.2 := by
  rw [mapNew, mapM_ok_iff]
  constructor
  · rintro ⟨pairs, rfl, rfl, each⟩
    have named : ∀ pair ∈ pairs, decode pair.1.2 = .ok pair.2.2 ∧ pair.1.1 = pair.2.1 := by
      intro pair member
      obtain ⟨result, decoded, same⟩ := bind_ok_iff.mp (each pair member)
      have same := Except.ok.inj same
      rw [← same]
      exact ⟨decoded, rfl⟩
    refine ⟨pairs.map fun pair => (pair.1.1, (pair.1.2, pair.2.2)), by simp [Function.comp_def], ?_, ?_⟩
    · rw [List.map_map]
      exact List.map_congr_left fun pair member => Prod.ext (named pair member).2.symm rfl
    · intro pair member
      obtain ⟨before, given, rfl⟩ := List.mem_map.mp member
      exact (named before given).1
  · rintro ⟨pairs, rfl, rfl, each⟩
    refine ⟨pairs.map fun pair => ((pair.1, pair.2.1), (pair.1, pair.2.2)), by simp [Function.comp_def, Prod.map],
      by simp [Function.comp_def, Prod.map], fun pair member => ?_⟩
    obtain ⟨before, given, rfl⟩ := List.mem_map.mp member
    exact bind_ok_iff.mpr ⟨_, each before given, rfl⟩

theorem mapNew_read (reading : Reading) {change : α → α} {after : β → β}
    (along : ∀ item result, decode item = .ok result → decode (change item) = .ok (after result))
    (decoded : mapNew entries decode = .ok results) :
    mapNew ((reading.members entries).map (Prod.map id change)) decode =
      .ok ((reading.members results).map (Prod.map id after)) := by
  obtain ⟨pairs, rfl, rfl, each⟩ := mapNew_ok_iff.mp decoded
  refine mapNew_ok_iff.mpr ⟨(reading.members pairs).map (Prod.map id (Prod.map change after)), ?_, ?_, ?_⟩
  · simp [reading.natural, Function.comp_def]
  · simp [reading.natural, Function.comp_def]
  · intro pair member
    obtain ⟨before, given, rfl⟩ := List.mem_map.mp member
    exact along _ _ (each before (reading.within _ _ given))

end Entries

/-! ## Cards under a reading -/

variable (reading : Reading)

theorem unlessNil_read (value : Json) : unlessNil (reading.value value) = (unlessNil value).map reading.value := by
  cases value with
  | int number => obtain ⟨_, same⟩ | ⟨_, same⟩ := reading.number_cases (rfl : (Json.int number).isNumber) <;>
      simp [same, unlessNil]
  | float number => obtain ⟨_, same⟩ | ⟨_, same⟩ := reading.number_cases (rfl : (Json.float number).isNumber) <;>
      simp [same, unlessNil]
  | _ => simp [unlessNil]

theorem truthy_read (value : Option Json) : truthy (value.map reading.value) = (truthy value).map reading.value := by
  cases value with
  | none => rfl
  | some value =>
    cases value with
    | int number => obtain ⟨_, same⟩ | ⟨_, same⟩ := reading.number_cases (rfl : (Json.int number).isNumber) <;>
        simp [same, truthy]
    | float number => obtain ⟨_, same⟩ | ⟨_, same⟩ := reading.number_cases (rfl : (Json.float number).isNumber) <;>
        simp [same, truthy]
    | bool flag => cases flag <;> simp [truthy]
    | _ => simp [truthy]

theorem unlessEmpty_read (value : Json) :
    unlessEmpty (reading.value value) = (unlessEmpty value).map reading.value := by
  cases value with
  | int number => obtain ⟨_, same⟩ | ⟨_, same⟩ := reading.number_cases (rfl : (Json.int number).isNumber) <;>
      simp [same, unlessEmpty]
  | float number => obtain ⟨_, same⟩ | ⟨_, same⟩ := reading.number_cases (rfl : (Json.float number).isNumber) <;>
      simp [same, unlessEmpty]
  | array items => cases items <;> simp [unlessEmpty]
  | object entries =>
    cases entries with
    | nil => simp [unlessEmpty, reading.members_nil.mpr rfl]
    | cons entry rest =>
      have some_left : reading.members (entry :: rest) ≠ [] := fun none => by simpa using reading.members_nil.mp none
      obtain ⟨first, others, same⟩ := List.exists_cons_of_ne_nil some_left
      simp [unlessEmpty, same]
  | _ => simp [unlessEmpty]

theorem getOr_read (json : Json) (key : String) {fallback : Json} (fixed : reading.value fallback = fallback) :
    getOr (reading.value json) key fallback = reading.value (getOr json key fallback) := by
  cases found : json.get? key <;> simp [getOr, found, fixed]

theorem known_read (value : Option Json) : known (value.map reading.value) = (known value).map reading.value := by
  cases value with
  | none => rfl
  | some value => exact unlessNil_read reading value

theorem array_nil : reading.value (.array []) = .array [] := by rw [reading.array, List.map_nil]

theorem array_text (text : String) : reading.value (.array [.string text]) = .array [.string text] := by
  rw [reading.array, List.map_cons, reading.string, List.map_nil]

theorem object_nil : reading.value (.object []) = .object [] := by
  rw [reading.object, reading.members_nil.mpr rfl, List.map_nil]

theorem fetch_read {json value : Json} {key : String} (fetched : fetch json key = .ok value) :
    fetch (reading.value json) key = .ok (reading.value value) := by
  cases found : json.get? key <;> simp_all [fetch]

theorem requireField_read {json value : Json} {name : String} (required : requireField json name = .ok value) :
    requireField (reading.value json) name = .ok (reading.value value) := by
  unfold requireField at required ⊢
  rw [reading.isObject_value]
  split at required
  next object =>
    rw [if_pos object]
    cases found : json.get? name <;> simp_all
  next => cases required

theorem decodeScopes_read {scopes decoded : Json} (given : decodeScopes scopes = .ok decoded) :
    decodeScopes (reading.value scopes) = .ok (reading.value decoded) := by
  cases scopes with
  | array items => cases given; simp [decodeScopes]
  | object entries =>
    have found := reading.get?_value (.object entries) "list"
    rw [reading.object] at found ⊢
    simp only [decodeScopes] at given ⊢
    rw [found]
    split at given
    next listed => cases given; simp [listed]
    next => cases given
  | _ => cases given

theorem decodeRequirement_read {requirement decoded : Json} (given : decodeRequirement requirement = .ok decoded) :
    decodeRequirement (reading.value requirement) = .ok (reading.value decoded) := by
  cases requirement with
  | object entries =>
    have found := reading.get?_value (.object entries) "schemes"
    rw [reading.object] at found ⊢
    simp only [decodeRequirement] at given ⊢
    rw [found]
    split at given
    next schemes listed =>
      obtain ⟨scopes, each, same⟩ := bind_ok_iff.mp given
      cases same
      rw [listed, Option.map_some, reading.object, reading.object]
      exact bind_ok_iff.mpr ⟨_, mapNew_read reading (fun _ _ => decodeScopes_read reading) each, rfl⟩
    next other =>
      cases given
      rw [reading.object]
      split
      next schemes listed =>
        obtain ⟨given, present, same⟩ := Option.map_eq_some_iff.mp listed
        have object := reading.isObject_value given
        rw [same] at object
        cases given <;> simp [Json.isObject] at object
        exact absurd present (other _)
      next => rfl
  | _ => cases given

theorem decodeCardSecurity_read {json : Json} {requirements : List Json}
    (given : decodeCardSecurity json = .ok requirements) :
    decodeCardSecurity (reading.value json) = .ok (requirements.map reading.value) := by
  cases json with
  | array items =>
    rw [reading.array]
    exact mapM_ok_map (fun _ _ _ => decodeRequirement_read reading) given
  | int number => obtain ⟨_, same⟩ | ⟨_, same⟩ := reading.number_cases (rfl : (Json.int number).isNumber) <;>
      cases given <;> simp [same, decodeCardSecurity]
  | float number => obtain ⟨_, same⟩ | ⟨_, same⟩ := reading.number_cases (rfl : (Json.float number).isNumber) <;>
      cases given <;> simp [same, decodeCardSecurity]
  | _ => cases given; simp [decodeCardSecurity]

end AgentCard

/-! Each leaf is read, and the entries of a map are. -/

def AgentExtension.read (reading : Reading) (extension : AgentExtension) : AgentExtension :=
  ⟨reading.value extension.uri, reading.value extension.description, reading.value extension.params,
    reading.value extension.required⟩

def Capabilities.read (reading : Reading) (capabilities : Capabilities) : Capabilities :=
  ⟨capabilities.streaming.map reading.value, capabilities.pushNotifications.map reading.value,
    capabilities.stateTransitionHistory.map reading.value, capabilities.extendedAgentCard.map reading.value,
    capabilities.extensions.map (List.map (AgentExtension.read reading))⟩

def Skill.read (reading : Reading) (skill : Skill) : Skill where
  id := reading.value skill.id
  name := reading.value skill.name
  description := reading.value skill.description
  tags := reading.value skill.tags
  inputModes := skill.inputModes.map reading.value
  outputModes := skill.outputModes.map reading.value
  securityRequirements := skill.securityRequirements.map (List.map reading.value)

def Provider.read (reading : Reading) (provider : Provider) : Provider :=
  ⟨provider.organization.map reading.value, provider.url.map reading.value⟩

def SupportedInterface.read (reading : Reading) (interface : SupportedInterface) : SupportedInterface :=
  ⟨interface.url.map reading.value, interface.protocolBinding.map reading.value,
    interface.protocolVersion.map reading.value⟩

def SecurityScheme.read (reading : Reading) : SecurityScheme → SecurityScheme
  | .apiKey name location => .apiKey (reading.value name) (reading.value location)
  | .httpAuth scheme => .httpAuth (reading.value scheme)
  | .oauth2 flows metadata => .oauth2 (reading.value flows) (reading.value metadata)
  | .openIdConnect url => .openIdConnect (reading.value url)
  | .mutualTLS => .mutualTLS

def AgentCard.read (reading : Reading) (card : AgentCard) : AgentCard where
  name := reading.value card.name
  description := reading.value card.description
  url := reading.value card.url
  version := reading.value card.version
  skills := card.skills.map (Skill.read reading)
  provider := card.provider.map (Provider.read reading)
  documentationUrl := reading.value card.documentationUrl
  iconUrl := reading.value card.iconUrl
  preferredTransport := reading.value card.preferredTransport
  protocolVersion := reading.value card.protocolVersion
  capabilities := card.capabilities.read reading
  defaultInputModes := reading.value card.defaultInputModes
  defaultOutputModes := reading.value card.defaultOutputModes
  supportedInterfaces := card.supportedInterfaces.map (SupportedInterface.read reading)
  securitySchemes := (reading.members card.securitySchemes).map (Prod.map id (SecurityScheme.read reading))
  security := card.security.map reading.value
  signatures := reading.value card.signatures

namespace AgentCard

variable (reading : Reading)

theorem map_some_ok_iff {α : Type} {result : Except Fault α} {given : Option α} :
    result.map some = .ok given ↔ ∃ value, result = .ok value ∧ given = some value := by
  cases result <;> simp [Except.map, eq_comm]

theorem decodeSkillSecurity_read {json : Json} {requirements : Option (List Json)}
    (given : decodeSkillSecurity json = .ok requirements) :
    decodeSkillSecurity (reading.value json) = .ok (requirements.map (List.map reading.value)) := by
  have asked : ((reading.value json).get? "securityRequirements").bind unlessNil =
      ((json.get? "securityRequirements").bind unlessNil).map reading.value := by
    cases found : json.get? "securityRequirements" <;> simp [found, unlessNil_read]
  unfold decodeSkillSecurity at given ⊢
  rw [asked]
  cases found : (json.get? "securityRequirements").bind unlessNil with
  | none =>
    rw [found] at given
    cases given
    rfl
  | some value =>
    simp only [found] at given
    obtain ⟨decoded, each, rfl⟩ := map_some_ok_iff.mp given
    exact map_some_ok_iff.mpr ⟨_, decodeCardSecurity_read reading each, rfl⟩

theorem decodeSkill_read {json : Json} {skill : Skill} (given : decodeSkill json = .ok skill) :
    decodeSkill (reading.value json) = .ok (skill.read reading) := by
  simp only [decodeSkill, bind_ok_iff] at given ⊢
  obtain ⟨id, hasId, name, named, description, described, requirements, required, same⟩ := given
  refine ⟨_, requireField_read reading hasId, _, requireField_read reading named, _,
    requireField_read reading described, _, decodeSkillSecurity_read reading required, ?_⟩
  cases same
  simp only [Skill.read, reading.get?_value, getOr_read reading json _ (array_nil reading)]
  rfl

theorem decodeCardSkills_read {json : Json} {skills : List Skill} (given : decodeCardSkills json = .ok skills) :
    decodeCardSkills (reading.value json) = .ok (skills.map (Skill.read reading)) := by
  cases json with
  | array items =>
    rw [reading.array]
    exact mapM_ok_map (fun _ _ _ => decodeSkill_read reading) given
  | _ => cases given

theorem decodeAgentExtension_read {json : Json} {extension : AgentExtension}
    (given : decodeAgentExtension json = .ok extension) :
    decodeAgentExtension (reading.value json) = .ok (extension.read reading) := by
  simp only [decodeAgentExtension, bind_ok_iff] at given ⊢
  obtain ⟨uri, fetched, same⟩ := given
  refine ⟨_, fetch_read reading fetched, ?_⟩
  cases same
  simp only [AgentExtension.read, getOr_read reading json _ reading.null,
    getOr_read reading json _ (reading.bool false)]
  rfl

theorem decodeExtensions_read {json : Json} {extensions : Option (List AgentExtension)}
    (given : decodeExtensions json = .ok extensions) :
    decodeExtensions (reading.value json) = .ok (extensions.map (List.map (AgentExtension.read reading))) := by
  unfold decodeExtensions at given ⊢
  rw [reading.get?_value]
  split at given
  next extension rest found =>
    obtain ⟨decoded, each, rfl⟩ := map_some_ok_iff.mp given
    have moved : ((extension :: rest).map reading.value).mapM decodeAgentExtension = _ :=
      mapM_ok_map (fun _ _ _ => decodeAgentExtension_read reading) each
    rw [found, Option.map_some, reading.array]
    exact map_some_ok_iff.mpr ⟨_, moved, rfl⟩
  next other =>
    cases given
    split
    next extension rest found =>
      obtain ⟨value, present, same⟩ := Option.map_eq_some_iff.mp found
      cases value with
      | array items => cases items <;> simp_all
      | int number => obtain ⟨_, read⟩ | ⟨_, read⟩ := reading.number_cases (rfl : (Json.int number).isNumber) <;>
          simp [read] at same
      | float number => obtain ⟨_, read⟩ | ⟨_, read⟩ := reading.number_cases (rfl : (Json.float number).isNumber) <;>
          simp [read] at same
      | _ => simp at same
    next => rfl

theorem decodeCardCapabilities_read {json : Json} {capabilities : Capabilities}
    (given : decodeCardCapabilities json = .ok capabilities) :
    decodeCardCapabilities (reading.value json) = .ok (capabilities.read reading) := by
  cases json with
  | null => cases given; rw [reading.null]; rfl
  | object entries =>
    obtain ⟨extensions, decoded, same⟩ := bind_ok_iff.mp given
    cases same
    have object := reading.object entries
    have moved := decodeExtensions_read reading decoded
    have found := reading.get?_value (.object entries)
    rw [object] at moved found ⊢
    refine bind_ok_iff.mpr ⟨_, moved, ?_⟩
    simp only [found, known_read, Capabilities.read]
    rfl
  | _ => cases given

theorem decodeInterface_read {json : Json} {interface : SupportedInterface}
    (given : decodeInterface json = .ok interface) :
    decodeInterface (reading.value json) = .ok (interface.read reading) := by
  unfold decodeInterface at given ⊢
  rw [reading.isObject_value]
  split at given
  next object =>
    cases given
    simp only [if_pos object, reading.get?_value, known_read, SupportedInterface.read]
  next => cases given

theorem decodeCardInterfaces_read {json : Json} {interfaces : List SupportedInterface}
    (given : decodeCardInterfaces json = .ok interfaces) :
    decodeCardInterfaces (reading.value json) = .ok (interfaces.map (SupportedInterface.read reading)) := by
  cases json with
  | array items =>
    rw [reading.array]
    exact mapM_ok_map (fun _ _ _ => decodeInterface_read reading) given
  | int number => obtain ⟨_, same⟩ | ⟨_, same⟩ := reading.number_cases (rfl : (Json.int number).isNumber) <;>
      cases given <;> simp [same, decodeCardInterfaces]
  | float number => obtain ⟨_, same⟩ | ⟨_, same⟩ := reading.number_cases (rfl : (Json.float number).isNumber) <;>
      cases given <;> simp [same, decodeCardInterfaces]
  | _ => cases given; simp [decodeCardInterfaces]

theorem decodeCardProvider_read {json : Json} {provider : Option Provider}
    (given : decodeCardProvider json = .ok provider) :
    decodeCardProvider (reading.value json) = .ok (provider.map (Provider.read reading)) := by
  cases json with
  | null => cases given; rw [reading.null]; rfl
  | object entries =>
    cases given
    have found := reading.get?_value (.object entries)
    rw [reading.object] at found ⊢
    simp only [decodeCardProvider, found, known_read]
    rfl
  | _ => cases given

theorem decodeSecurityScheme_read {json : Json} {scheme : SecurityScheme}
    (given : decodeSecurityScheme json = .ok scheme) :
    decodeSecurityScheme (reading.value json) = .ok (scheme.read reading) := by
  unfold decodeSecurityScheme at given ⊢
  simp only [reading.get?_value]
  cases apiKey : json.get? "apiKeySecurityScheme" with
  | some inner =>
    simp only [apiKey, Option.map_some, bind_ok_iff] at given ⊢
    obtain ⟨name, named, placed⟩ := given
    refine ⟨_, fetch_read reading named, ?_⟩
    rw [reading.get?_value, truthy_read]
    cases found : truthy (inner.get? "location") with
    | some location =>
      rw [found] at placed
      cases placed
      rfl
    | none =>
      simp only [found, bind_ok_iff] at placed
      obtain ⟨location, fetched, same⟩ := placed
      cases same
      exact bind_ok_iff.mpr ⟨_, fetch_read reading fetched, rfl⟩
  | none =>
    simp only [apiKey, Option.map_none] at given ⊢
    cases http : json.get? "httpAuthSecurityScheme" with
    | some inner =>
      simp only [http, Option.map_some, bind_ok_iff] at given ⊢
      obtain ⟨name, fetched, same⟩ := given
      cases same
      exact ⟨_, fetch_read reading fetched, rfl⟩
    | none =>
      simp only [http, Option.map_none] at given ⊢
      cases oauth2 : json.get? "oauth2SecurityScheme" with
      | some inner =>
        simp only [oauth2, Option.map_some, bind_ok_iff] at given ⊢
        obtain ⟨flows, fetched, same⟩ := given
        cases same
        exact ⟨_, fetch_read reading fetched, by rw [getOr_read reading _ _ reading.null]; rfl⟩
      | none =>
        simp only [oauth2, Option.map_none] at given ⊢
        cases openId : json.get? "openIdConnectSecurityScheme" with
        | some inner =>
          simp only [openId, Option.map_some, bind_ok_iff] at given ⊢
          obtain ⟨url, fetched, same⟩ := given
          cases same
          exact ⟨_, fetch_read reading fetched, rfl⟩
        | none =>
          simp only [openId, Option.map_none] at given ⊢
          cases mtls : json.get? "mtlsSecurityScheme" with
          | some inner =>
            rw [mtls] at given
            cases given
            rfl
          | none =>
            rw [mtls] at given
            cases given

theorem decodeCardSecuritySchemes_read {json : Json} {schemes : List (String × SecurityScheme)}
    (given : decodeCardSecuritySchemes json = .ok schemes) :
    decodeCardSecuritySchemes (reading.value json) =
      .ok ((reading.members schemes).map (Prod.map id (SecurityScheme.read reading))) := by
  cases json with
  | object entries =>
    rw [reading.object]
    exact mapNew_read reading (fun _ _ => decodeSecurityScheme_read reading) given
  | _ => cases given

theorem preferredInterfaceUrl_read (interfaces : List SupportedInterface) :
    preferredInterfaceUrl (interfaces.map (SupportedInterface.read reading)) =
      reading.value (preferredInterfaceUrl interfaces) := by
  cases interfaces with
  | nil => rw [preferredInterfaceUrl.eq_def]; simp [preferredInterfaceUrl]
  | cons first rest =>
    obtain ⟨url, binding, version⟩ := first
    cases url with
    | none => simp [preferredInterfaceUrl, SupportedInterface.read]
    | some url =>
      cases url with
      | int number => obtain ⟨_, read⟩ | ⟨_, read⟩ := reading.number_cases (rfl : (Json.int number).isNumber) <;>
          simp [preferredInterfaceUrl, SupportedInterface.read, read]
      | float number =>
        obtain ⟨_, read⟩ | ⟨_, read⟩ := reading.number_cases (rfl : (Json.float number).isNumber) <;>
          simp [preferredInterfaceUrl, SupportedInterface.read, read]
      | _ => simp [preferredInterfaceUrl, SupportedInterface.read]

theorem decodeAgentCard_read {json : Json} {card : AgentCard} (given : decodeAgentCard json = .ok card) :
    decodeAgentCard (reading.value json) = .ok (card.read reading) := by
  simp only [decodeAgentCard, bind_ok_iff] at given ⊢
  obtain ⟨name, named, description, described, version, versioned, listed, present, skills, skilled, interfaces,
    reached, capabilities, capable, provider, provided, schemes, secured, security, required, same⟩ := given
  cases same
  have asked : (truthy ((reading.value json).get? "securityRequirements")).getD
      (getOr (reading.value json) "security" (.array [])) =
        reading.value ((truthy (json.get? "securityRequirements")).getD (getOr json "security" (.array []))) := by
    rw [reading.get?_value, truthy_read, getOr_read reading json _ (array_nil reading), Option.getD_map]
  have modes := array_text reading "text/plain"
  have reaches := getOr_read reading json "supportedInterfaces" (array_nil reading)
  have capables := getOr_read reading json "capabilities" (object_nil reading)
  have provides := getOr_read reading json "provider" reading.null
  have secures := getOr_read reading json "securitySchemes" (object_nil reading)
  refine ⟨_, requireField_read reading named, _, requireField_read reading described, _,
    requireField_read reading versioned, _, requireField_read reading present, _,
    decodeCardSkills_read reading skilled, _, reaches ▸ decodeCardInterfaces_read reading reached, _,
    capables ▸ decodeCardCapabilities_read reading capable, _, provides ▸ decodeCardProvider_read reading provided, _,
    secures ▸ decodeCardSecuritySchemes_read reading secured, _, asked ▸ decodeCardSecurity_read reading required, ?_⟩
  have url : (truthy ((reading.value json).get? "url")).getD
      (preferredInterfaceUrl (interfaces.map (SupportedInterface.read reading))) =
        reading.value ((truthy (json.get? "url")).getD (preferredInterfaceUrl interfaces)) := by
    rw [reading.get?_value, truthy_read, preferredInterfaceUrl_read, Option.getD_map]
  simp only [AgentCard.read, url, reading.null, getOr_read reading json _ modes, getOr_read reading json _ reading.null,
    getOr_read reading json _ (array_nil reading)]
  rfl

/-! ## Encoding under a reading -/

/-- Where no key is repeated the reading leaves the entries in place. -/
def InPlace (reading : Reading) : Prop :=
  ∀ {α : Type} (entries : List (String × α)), (entries.map Prod.fst).Nodup → reading.members entries = entries

theorem plainly_inPlace : InPlace Json.plainly := fun _ distinct => Json.lastEntries_of_nodup distinct

theorem interfaces_read (card : AgentCard) :
    (card.read reading).interfaces = card.interfaces.map (SupportedInterface.read reading) := by
  cases given : card.supportedInterfaces with
  | nil => simp [interfaces, AgentCard.read, given, SupportedInterface.read, Protocol.protocolVersion]
  | cons first rest => simp [interfaces, AgentCard.read, given]

theorem cardField_read (value : Json) {fallback : Json} (fixed : reading.value fallback = fallback) :
    cardField (reading.value value) fallback = reading.value (cardField value fallback) := by
  rw [cardField, cardField, unlessNil_read]
  cases unlessNil value <;> simp [fixed]

section InPlace

variable {reading} (inPlace : InPlace reading)

include inPlace

theorem record_read {members : List (String × Option Json)} (distinct : (members.map Prod.fst).Nodup) :
    reading.value (record members) = record (members.map (Prod.map id (Option.map reading.value))) := by
  rw [record, reading.object, inPlace _ (Json.record_keys.nodup distinct), record, List.map_filterMap,
    List.filterMap_map]
  congr 2
  funext member
  obtain ⟨key, value⟩ := member
  cases value <;> rfl

theorem object_read (key : String) (value : Json) :
    reading.value (.object [(key, value)]) = .object [(key, reading.value value)] := by
  rw [reading.object, inPlace _ (by simp)]
  rfl

theorem encodeSecurityRequirement_read (requirement : Json) :
    encodeSecurityRequirement (reading.value requirement) =
      (encodeSecurityRequirement requirement).map reading.value := by
  cases requirement with
  | object flat =>
    have found := reading.get?_value (.object flat) "schemes"
    rw [reading.object] at found ⊢
    simp only [encodeSecurityRequirement]
    rw [found]
    cases present : (Json.object flat).get? "schemes" with
    | some schemes => simp [Except.map]
    | none =>
      simp [Except.map, object_read inPlace, reading.natural]
  | int number => obtain ⟨_, same⟩ | ⟨_, same⟩ := reading.number_cases (rfl : (Json.int number).isNumber) <;>
      simp [same, encodeSecurityRequirement, Except.map]
  | float number => obtain ⟨_, same⟩ | ⟨_, same⟩ := reading.number_cases (rfl : (Json.float number).isNumber) <;>
      simp [same, encodeSecurityRequirement, Except.map]
  | _ => simp [encodeSecurityRequirement, Except.map]

theorem encodeSecurityRequirements_read (requirements : List Json) :
    encodeSecurityRequirements (requirements.map reading.value) =
      (encodeSecurityRequirements requirements).map (List.map reading.value) :=
  mapM_map_map (encodeSecurityRequirement_read inPlace)

theorem encodeSkill_read (skill : Skill) :
    encodeSkill (skill.read reading) = (encodeSkill skill).map reading.value := by
  have requirements : (skill.read reading).securityRequirements.getD [] =
      (skill.securityRequirements.getD []).map reading.value := by
    cases given : skill.securityRequirements <;> simp [Skill.read, given]
  have mode : ∀ value : Option Json, (value.map reading.value).bind unlessNil = (value.bind unlessNil).map reading.value := by
    rintro (_ | value)
    · rfl
    · exact unlessNil_read reading value
  unfold encodeSkill
  rw [requirements, encodeSecurityRequirements_read inPlace]
  cases encodeSecurityRequirements (skill.securityRequirements.getD []) with
  | error fault => rfl
  | ok encoded =>
    have listed := unlessEmpty_read reading (.array encoded)
    rw [reading.array] at listed
    refine congrArg Except.ok ?_
    rw [record_read inPlace (by simp)]
    simp [Skill.read, mode, listed]

theorem encodeAgentExtension_read (extension : AgentExtension) :
    encodeAgentExtension (extension.read reading) = reading.value (encodeAgentExtension extension) := by
  rw [encodeAgentExtension, encodeAgentExtension, record_read inPlace (by simp)]
  simp [AgentExtension.read, unlessNil_read]

theorem encodeCapabilities_read (capabilities : Capabilities) :
    encodeCapabilities (capabilities.read reading) = reading.value (encodeCapabilities capabilities) := by
  have listed := unlessEmpty_read reading (.array ((capabilities.extensions.getD []).map encodeAgentExtension))
  have extensions : (capabilities.read reading).extensions.getD [] =
      (capabilities.extensions.getD []).map (AgentExtension.read reading) := by
    cases given : capabilities.extensions <;> simp [Capabilities.read, given]
  have encoded : ((capabilities.read reading).extensions.getD []).map encodeAgentExtension =
      ((capabilities.extensions.getD []).map encodeAgentExtension).map reading.value := by
    simp [extensions, Function.comp_def, encodeAgentExtension_read inPlace]
  rw [reading.array] at listed
  rw [encodeCapabilities, encodeCapabilities, record_read inPlace (by simp), encoded, listed]
  simp [Capabilities.read, known_read]

theorem encodeInterface_read (interface : SupportedInterface) :
    encodeInterface (interface.read reading) = reading.value (encodeInterface interface) := by
  rw [encodeInterface, encodeInterface, record_read inPlace (by simp)]
  simp [SupportedInterface.read, known_read]

theorem encodeProvider_read (provider : Provider) :
    encodeProvider (provider.read reading) = reading.value (encodeProvider provider) := by
  rw [encodeProvider, encodeProvider, record_read inPlace (by simp)]
  simp [Provider.read, known_read]

theorem encodeSecurityScheme_read (scheme : SecurityScheme) :
    encodeSecurityScheme (scheme.read reading) = reading.value (encodeSecurityScheme scheme) := by
  cases scheme with
  | apiKey name location =>
    rw [SecurityScheme.read, encodeSecurityScheme, encodeSecurityScheme, object_read inPlace, reading.object,
      inPlace _ (by simp)]
    rfl
  | httpAuth scheme => simp only [SecurityScheme.read, encodeSecurityScheme, object_read inPlace]
  | oauth2 flows metadata =>
    have optional := truthy_read reading (some metadata)
    rw [Option.map_some] at optional
    rw [SecurityScheme.read, encodeSecurityScheme, encodeSecurityScheme, object_read inPlace,
      record_read inPlace (by simp), optional]
    rfl
  | openIdConnect url => simp only [SecurityScheme.read, encodeSecurityScheme, object_read inPlace]
  | mutualTLS => simp only [SecurityScheme.read, encodeSecurityScheme, object_read inPlace, object_nil]

theorem encodeAgentCard_read (card : AgentCard) :
    encodeAgentCard (card.read reading) = (encodeAgentCard card).map reading.value := by
  have skills : (card.read reading).skills.mapM encodeSkill =
      (card.skills.mapM encodeSkill).map (List.map reading.value) :=
    mapM_map_map (encodeSkill_read inPlace)
  have security : encodeSecurityRequirements (card.read reading).security =
      (encodeSecurityRequirements card.security).map (List.map reading.value) :=
    encodeSecurityRequirements_read inPlace card.security
  have interfaces : (card.read reading).interfaces.map encodeInterface =
      (card.interfaces.map encodeInterface).map reading.value := by
    simp [interfaces_read, Function.comp_def, encodeInterface_read inPlace]
  have schemes : Json.object ((card.read reading).securitySchemes.map (Prod.map id encodeSecurityScheme)) =
      reading.value (.object (card.securitySchemes.map (Prod.map id encodeSecurityScheme))) := by
    simp [AgentCard.read, reading.natural, Function.comp_def, encodeSecurityScheme_read inPlace]
  unfold encodeAgentCard
  rw [skills, security]
  cases card.skills.mapM encodeSkill with
  | error fault => rfl
  | ok skills =>
    cases encodeSecurityRequirements card.security with
    | error fault => rfl
    | ok security =>
      have listed := unlessEmpty_read reading (.array security)
      rw [reading.array] at listed
      refine congrArg Except.ok ?_
      rw [record_read inPlace (by simp), interfaces, schemes, unlessEmpty_read, listed]
      simp only [AgentCard.read, encodeCapabilities_read inPlace, cardField_read reading _ (array_text reading _),
        cardField_read reading _ (array_nil reading), unlessNil_read, unlessEmpty_read]
      simp only [List.map_cons, List.map_nil, Prod.map, id_eq, Option.map_some, reading.array, Option.map_map,
        Function.comp_def, encodeProvider_read inPlace]

end InPlace

end AgentCard

end Protocol

end AshA2A
