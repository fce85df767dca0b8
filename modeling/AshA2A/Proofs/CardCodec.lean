import AshA2A.Proofs.CardReading

/-! A card that says nothing beyond its own encoding is decoded from it, and every card of the
type is encoded like one of these. -/

namespace AshA2A.Protocol

open Json (record)

/-! ## Settled values -/

/-- The entry is not of the wire's shape. -/
structure SettledRequirement (requirement : Json) : Prop where
  object : requirement.isObject
  unwrapped : ∀ schemes, requirement.get? "schemes" = some schemes → schemes.isObject = false
  scopes : requirement.get? "schemes" = none → ∀ entry ∈ requirement.entries, entry.2.isArray

structure Skill.Settled (skill : Skill) : Prop where
  inputModes : skill.inputModes ≠ some .null
  outputModes : skill.outputModes ≠ some .null
  some_required : skill.securityRequirements ≠ some []
  requirements : ∀ requirements ∈ skill.securityRequirements,
    ∀ requirement ∈ requirements, SettledRequirement requirement

structure Capabilities.Settled (capabilities : Capabilities) : Prop where
  streaming : capabilities.streaming ≠ some .null
  pushNotifications : capabilities.pushNotifications ≠ some .null
  stateTransitionHistory : capabilities.stateTransitionHistory = none
  extendedAgentCard : capabilities.extendedAgentCard ≠ some .null
  extensions : capabilities.extensions ≠ some []

structure Provider.Settled (provider : Provider) : Prop where
  organization : provider.organization ≠ some .null
  url : provider.url ≠ some .null

structure SupportedInterface.Settled (interface : SupportedInterface) : Prop where
  url : interface.url ≠ some .null
  protocolBinding : interface.protocolBinding ≠ some .null
  protocolVersion : interface.protocolVersion ≠ some .null

def SecurityScheme.Settled : SecurityScheme → Prop
  | .apiKey _ location => location ≠ .null ∧ location ≠ .bool false
  | .oauth2 _ metadata => metadata ≠ .bool false
  | _ => True

/-- The card holds nothing that its encoding leaves out. -/
structure AgentCard.Settled (card : AgentCard) : Prop where
  url : card.url = AgentCard.preferredInterfaceUrl card.supportedInterfaces
  skills : ∀ skill ∈ card.skills, skill.Settled
  provider : ∀ provider ∈ card.provider, provider.Settled
  preferredTransport : card.preferredTransport = .null
  protocolVersion : card.protocolVersion = .null
  capabilities : card.capabilities.Settled
  defaultInputModes : card.defaultInputModes ≠ .null
  defaultOutputModes : card.defaultOutputModes ≠ .null
  reached : card.supportedInterfaces ≠ []
  supportedInterfaces : ∀ interface ∈ card.supportedInterfaces, interface.Settled
  securitySchemes : ∀ scheme ∈ card.securitySchemes, scheme.2.Settled
  security : ∀ requirement ∈ card.security, SettledRequirement requirement
  signatures : card.signatures ≠ .null ∧ card.signatures ≠ .object []

namespace AgentCard

/-! ## Decoding what was encoded -/

theorem unlessNil_getD (value : Json) : (unlessNil value).getD .null = value := by cases value <;> rfl

theorem known_of_ne {value : Option Json} (given : value ≠ some .null) : known value = value := by
  cases value with
  | none => rfl
  | some value => cases value <;> simp_all [known, unlessNil]

theorem cardField_of_ne {value fallback : Json} (given : value ≠ .null) : cardField value fallback = value := by
  cases value <;> simp_all [cardField, unlessNil]

theorem unlessEmpty_array {value : Json} (given : value ≠ .object []) :
    (unlessEmpty value).getD (.array []) = value := by
  cases value with
  | array items => cases items <;> rfl
  | object entries =>
    cases entries with
    | nil => exact absurd rfl given
    | cons entry rest => rfl
  | _ => rfl

theorem requirement_back {requirement : Json} (settled : SettledRequirement requirement) :
    ∃ text, encodeSecurityRequirement requirement = .ok text ∧ decodeRequirement text = .ok requirement := by
  obtain ⟨object, unwrapped, scopes⟩ := settled
  cases requirement with
  | object flat =>
    cases found : (Json.object flat).get? "schemes" with
    | some schemes =>
      have plain := unwrapped schemes found
      refine ⟨.object flat, by simp only [encodeSecurityRequirement, found], ?_⟩
      simp only [decodeRequirement, found]
      cases schemes <;> simp_all [Json.isObject]
    | none =>
      refine ⟨_, by simp only [encodeSecurityRequirement, found]; rfl, ?_⟩
      have back : mapNew (flat.map (Prod.map id fun scopes => .object [("list", scopes)])) decodeScopes = .ok flat := by
        refine mapNew_ok_iff.mpr ⟨flat.map fun entry => (entry.1, (.object [("list", entry.2)], entry.2)),
          by simp [Function.comp_def, Prod.map], by simp [Function.comp_def, Prod.map], fun pair member => ?_⟩
        obtain ⟨entry, given, rfl⟩ := List.mem_map.mp member
        have listed := scopes found entry given
        cases scopes : entry.2 <;> simp_all [Json.isArray, decodeScopes, Json.get?, Json.entries]
      exact bind_ok_iff.mpr ⟨_, back, rfl⟩
  | _ => cases object

theorem requirements_back {requirements : List Json}
    (settled : ∀ requirement ∈ requirements, SettledRequirement requirement) :
    ∃ texts, encodeSecurityRequirements requirements = .ok texts ∧ texts.mapM decodeRequirement = .ok requirements :=
  mapM_back fun requirement member => requirement_back (settled requirement member)

theorem requireField_record {members : List (String × Option Json)} {name : String} {value : Json}
    (distinct : (members.map Prod.fst).Nodup) (found : members.lookup name = some (some value)) :
    requireField (record members) name = .ok value := by
  have object : (record members).isObject := rfl
  rw [requireField, if_pos object, Json.get?_record distinct, found]
  rfl

theorem skill_back {skill : Skill} (settled : skill.Settled) :
    ∃ text, encodeSkill skill = .ok text ∧ decodeSkill text = .ok skill := by
  obtain ⟨inputs, outputs, some_required, each⟩ := settled
  have settled : ∀ requirement ∈ skill.securityRequirements.getD [], SettledRequirement requirement := by
    cases given : skill.securityRequirements with
    | none => exact fun _ member => absurd member List.not_mem_nil
    | some requirements => exact each requirements given
  obtain ⟨texts, encoded, decoded⟩ := requirements_back settled
  refine ⟨_, by rw [encodeSkill, encoded]; rfl, ?_⟩
  have required : decodeSkillSecurity (record
      [("id", skill.id), ("name", skill.name), ("description", skill.description), ("tags", skill.tags),
        ("inputModes", skill.inputModes.bind unlessNil), ("outputModes", skill.outputModes.bind unlessNil),
        ("securityRequirements", unlessEmpty (.array texts))]) = .ok skill.securityRequirements := by
    unfold decodeSkillSecurity
    rw [Json.get?_record (by simp)]
    cases given : skill.securityRequirements with
    | none =>
      rw [given] at encoded
      cases encoded
      simp [List.lookup_cons, unlessEmpty]
    | some requirements =>
      rw [given] at decoded some_required
      cases texts with
      | nil => cases decoded; exact absurd rfl some_required
      | cons text texts =>
        exact map_some_ok_iff.mpr ⟨_, decoded, rfl⟩
  have input : skill.inputModes.bind unlessNil = skill.inputModes := known_of_ne inputs
  have output : skill.outputModes.bind unlessNil = skill.outputModes := known_of_ne outputs
  unfold decodeSkill
  refine bind_ok_iff.mpr ⟨_, requireField_record (by simp) rfl, bind_ok_iff.mpr ⟨_, requireField_record (by simp) rfl,
    bind_ok_iff.mpr ⟨_, requireField_record (by simp) rfl, bind_ok_iff.mpr ⟨_, required, ?_⟩⟩⟩⟩
  simp [getOr, Json.get?_record, List.lookup_cons, input, output]
  rfl

theorem extension_back (extension : AgentExtension) :
    decodeAgentExtension (encodeAgentExtension extension) = .ok extension := by
  simp [decodeAgentExtension, encodeAgentExtension, fetch, getOr, Json.get?_record, List.lookup_cons, unlessNil_getD]

theorem capabilities_back {capabilities : Capabilities} (settled : capabilities.Settled) :
    decodeCardCapabilities (encodeCapabilities capabilities) = .ok capabilities := by
  obtain ⟨streaming, push, history, extended, some_listed⟩ := settled
  have listed : decodeExtensions (encodeCapabilities capabilities) = .ok capabilities.extensions := by
    unfold decodeExtensions encodeCapabilities
    rw [Json.get?_record (by simp)]
    cases given : capabilities.extensions with
    | none => simp [List.lookup_cons, unlessEmpty]
    | some extensions =>
      cases extensions with
      | nil => exact absurd given some_listed
      | cons extension rest =>
        simp only [List.lookup_cons, List.lookup_nil, unlessEmpty, Option.getD_some, List.map_cons]
        have back : ((extension :: rest).map encodeAgentExtension).mapM decodeAgentExtension = .ok (extension :: rest) :=
          mapM_ok_of_map fun extension _ => extension_back extension
        exact map_some_ok_iff.mpr ⟨_, back, rfl⟩
  refine bind_ok_iff.mpr ⟨_, listed, ?_⟩
  obtain ⟨_, _, _, _, _⟩ := capabilities
  subst history
  simp [encodeCapabilities, Json.get?_record, List.lookup_cons, List.lookup_nil, known_of_ne streaming, known_of_ne push,
    known_of_ne extended]
  rfl

theorem interface_back {interface : SupportedInterface} (settled : interface.Settled) :
    decodeInterface (encodeInterface interface) = .ok interface := by
  obtain ⟨url, binding, version⟩ := settled
  have object : (encodeInterface interface).isObject := rfl
  rw [decodeInterface, if_pos object]
  simp [encodeInterface, Json.get?_record, List.lookup_cons, known_of_ne url, known_of_ne binding,
    known_of_ne version]

theorem provider_back {provider : Provider} (settled : provider.Settled) :
    decodeCardProvider (encodeProvider provider) = .ok (some provider) := by
  obtain ⟨organization, url⟩ := settled
  simp only [decodeCardProvider, encodeProvider, record]
  rw [← record]
  simp [Json.get?_record, List.lookup_cons, known_of_ne organization, known_of_ne url]

theorem scheme_back {scheme : SecurityScheme} (settled : scheme.Settled) :
    decodeSecurityScheme (encodeSecurityScheme scheme) = .ok scheme := by
  cases scheme with
  | apiKey name location =>
    have placed : truthy (some location) = some location := by
      obtain ⟨present, held⟩ := settled
      cases location with
      | bool flag => cases flag <;> simp_all [truthy]
      | null => exact absurd rfl present
      | _ => rfl
    simp [decodeSecurityScheme, encodeSecurityScheme, Json.get?, Json.entries, List.lookup_cons, List.lookup_nil, fetch, placed]
  | httpAuth scheme => rfl
  | oauth2 flows metadata =>
    have optional : (truthy (some metadata)).getD .null = metadata := by
      cases metadata with
      | bool flag => cases flag <;> simp_all [truthy, SecurityScheme.Settled]
      | _ => rfl
    simp [decodeSecurityScheme, encodeSecurityScheme, Json.get?_record, List.lookup_cons, List.lookup_nil, fetch, getOr, optional]
  | openIdConnect url => rfl
  | mutualTLS => rfl

theorem getOr_record {members : List (String × Option Json)} {key : String} {fallback : Json} {value : Option Json}
    (distinct : (members.map Prod.fst).Nodup) (found : members.lookup key = some value) :
    getOr (record members) key fallback = value.getD fallback := by
  rw [getOr, Json.get?_record distinct, found]
  rfl

theorem getOr_absent {members : List (String × Option Json)} {key : String} {fallback : Json}
    (distinct : (members.map Prod.fst).Nodup) (absent : members.lookup key = none) :
    getOr (record members) key fallback = fallback := by
  rw [getOr, Json.get?_record distinct, absent]
  rfl

theorem truthy_unlessEmpty (items : List Json) :
    (truthy (unlessEmpty (.array items))).getD (.array []) = .array items := by
  cases items <;> rfl

theorem schemes_back {schemes : List (String × SecurityScheme)} (settled : ∀ scheme ∈ schemes, scheme.2.Settled) :
    decodeCardSecuritySchemes ((unlessEmpty (.object (schemes.map (Prod.map id encodeSecurityScheme)))).getD
      (.object [])) = .ok schemes := by
  have whole : (unlessEmpty (.object (schemes.map (Prod.map id encodeSecurityScheme)))).getD (.object []) =
      .object (schemes.map (Prod.map id encodeSecurityScheme)) := by
    cases schemes <;> rfl
  rw [whole]
  refine mapNew_ok_iff.mpr ⟨schemes.map fun scheme => (scheme.1, (encodeSecurityScheme scheme.2, scheme.2)),
    by simp [Function.comp_def, Prod.map], by simp [Function.comp_def, Prod.map], fun pair member => ?_⟩
  obtain ⟨scheme, given, rfl⟩ := List.mem_map.mp member
  exact scheme_back (settled scheme given)

theorem decode_encode {card : AgentCard} (settled : card.Settled) :
    ∃ text, encodeAgentCard card = .ok text ∧ decodeAgentCard text = .ok card := by
  obtain ⟨skills, skilled, back⟩ : ∃ texts, card.skills.mapM encodeSkill = .ok texts ∧
      texts.mapM decodeSkill = .ok card.skills :=
    mapM_back fun skill member => skill_back (settled.skills skill member)
  obtain ⟨security, required, secured⟩ := requirements_back settled.security
  have interfaces : card.interfaces = card.supportedInterfaces := by
    unfold AgentCard.interfaces
    split
    next none => exact absurd none settled.reached
    next => rfl
  have reached : (card.interfaces.map encodeInterface).mapM decodeInterface = .ok card.supportedInterfaces := by
    rw [interfaces]
    exact mapM_ok_of_map fun interface member => interface_back (settled.supportedInterfaces interface member)
  have capable := capabilities_back settled.capabilities
  have provided : decodeCardProvider ((card.provider.map encodeProvider).getD .null) = .ok card.provider := by
    cases given : card.provider with
    | none => rfl
    | some provider => exact provider_back (settled.provider provider given)
  have schemes := schemes_back settled.securitySchemes
  refine ⟨_, by rw [encodeAgentCard, skilled, required]; rfl, ?_⟩
  unfold decodeAgentCard
  refine bind_ok_iff.mpr ⟨_, requireField_record (by simp) rfl, bind_ok_iff.mpr ⟨_, requireField_record (by simp) rfl,
    bind_ok_iff.mpr ⟨_, requireField_record (by simp) rfl, bind_ok_iff.mpr ⟨_, requireField_record (by simp) rfl,
    bind_ok_iff.mpr ⟨_, back, bind_ok_iff.mpr ⟨card.supportedInterfaces, ?_, bind_ok_iff.mpr ⟨card.capabilities, ?_,
    bind_ok_iff.mpr ⟨card.provider, ?_, bind_ok_iff.mpr ⟨card.securitySchemes, ?_,
    bind_ok_iff.mpr ⟨card.security, ?_, ?_⟩⟩⟩⟩⟩⟩⟩⟩⟩⟩
  · rw [getOr_record (by simp) rfl]
    exact reached
  · rw [getOr_record (by simp) rfl]
    exact capable
  · rw [getOr_record (by simp) rfl]
    exact provided
  · rw [getOr_record (by simp) rfl]
    exact schemes
  · rw [Json.get?_record (by simp), getOr_absent (by simp) rfl]
    exact (congrArg decodeCardSecurity (truthy_unlessEmpty security)).trans secured
  · have signatures : (unlessEmpty (cardField card.signatures (.array []))).getD (.array []) = card.signatures := by
      rw [cardField_of_ne settled.signatures.1]
      exact unlessEmpty_array settled.signatures.2
    obtain ⟨_, _, _, _, _, _, _, _, _, _, _, _, _, _, _, _, _⟩ := card
    obtain ⟨url, _, _, transport, version, _, inputs, outputs, _⟩ := settled
    simp only at url transport version inputs outputs
    simp [getOr, Json.get?_record, List.lookup_cons, List.lookup_nil, truthy, unlessNil_getD, cardField_of_ne inputs,
      cardField_of_ne outputs, signatures, url, transport, version]
    rfl

end AgentCard

/-! ## Cards of the type -/

theorem isArray_of_isStrings {json : Json} (strings : isStrings json) : json.isArray := by
  cases json <;> simp_all [isStrings, Json.isArray]

theorem settled_of_isRequirement {requirement : Json} (typed : isRequirement requirement) :
    SettledRequirement requirement := by
  cases requirement with
  | object entries =>
    have each : ∀ entry ∈ entries, entry.2.isArray := fun entry member =>
      isArray_of_isStrings (List.all_eq_true.mp typed entry member)
    refine ⟨rfl, fun schemes found => ?_, fun _ => each⟩
    obtain ⟨front, back, same, _⟩ := List.lookup_eq_some_iff.mp found
    have listed := each ("schemes", schemes) (List.mem_reverse.mp (same ▸ by simp))
    cases schemes <;> simp_all [Json.isArray, Json.isObject]
  | _ => cases typed

def Skill.settle (skill : Skill) : Skill :=
  { skill with
    securityRequirements :=
      match skill.securityRequirements with
      | some [] => none
      | requirements => requirements }

def Capabilities.settle (capabilities : Capabilities) : Capabilities :=
  { capabilities with
    stateTransitionHistory := none
    extensions :=
      match capabilities.extensions with
      | some [] => none
      | extensions => extensions }

/-- The card as its encoding shows it. -/
def AgentCard.settle (card : AgentCard) : AgentCard :=
  { card with
    url := AgentCard.preferredInterfaceUrl card.interfaces
    skills := card.skills.map Skill.settle
    preferredTransport := .null
    protocolVersion := .null
    capabilities := card.capabilities.settle
    supportedInterfaces := card.interfaces }

theorem ne_null_of_isStrings {json : Json} (strings : isStrings json) : json ≠ .null := by
  rintro rfl
  cases strings

theorem Skill.Typed.settled {skill : Skill} (typed : skill.Typed) : skill.settle.Settled := by
  refine ⟨fun same => ne_null_of_isStrings (typed.inputModes _ same) rfl,
    fun same => ne_null_of_isStrings (typed.outputModes _ same) rfl, ?_, ?_⟩
  · intro same
    simp only [Skill.settle] at same
    split at same
    · cases same
    next other => exact other same
  · intro requirements given requirement member
    simp only [Skill.settle] at given
    split at given
    · cases given
    · exact settled_of_isRequirement (typed.securityRequirements requirements given requirement member)

theorem Capabilities.Typed.settled {capabilities : Capabilities} (typed : capabilities.Typed) :
    capabilities.settle.Settled := by
  have flag : ∀ {value : Option Json}, (∀ given ∈ value, isBool given) → value ≠ some .null := by
    rintro value bool rfl
    cases bool _ rfl
  refine ⟨flag typed.streaming, flag typed.pushNotifications, rfl, flag typed.extendedAgentCard, fun same => ?_⟩
  simp only [Capabilities.settle] at same
  split at same
  · cases same
  next other => exact other same

theorem SupportedInterface.Typed.settled {interface : SupportedInterface} (typed : interface.Typed) :
    interface.Settled := by
  obtain ⟨⟨url, hasUrl⟩, ⟨binding, bound⟩, version, versioned⟩ := typed
  exact ⟨by simp [hasUrl], by simp [bound], by simp [versioned]⟩

theorem SecurityScheme.Typed.settled {scheme : SecurityScheme} (typed : scheme.Typed) : scheme.Settled := by
  cases scheme with
  | apiKey name location =>
    refine ⟨?_, ?_⟩ <;> rintro rfl <;> cases typed.2
  | oauth2 flows metadata =>
    rintro rfl
    obtain same | string := typed.2
    · cases same
    · cases string
  | _ => trivial

namespace AgentCard

theorem interfaces_typed {card : AgentCard} (typed : card.Typed) : ∀ interface ∈ card.interfaces, interface.Typed := by
  unfold interfaces
  split
  · have url := typed.url
    cases given : card.url <;> simp_all [isString]
    exact ⟨⟨_, rfl⟩, ⟨_, rfl⟩, _, rfl⟩
  · exact typed.supportedInterfaces

theorem interfaces_ne_nil (card : AgentCard) : card.interfaces ≠ [] := by
  unfold interfaces
  split
  · simp
  next other => exact other

theorem Typed.settled {card : AgentCard} (typed : card.Typed) : card.settle.Settled where
  url := rfl
  skills := by
    intro skill member
    obtain ⟨skill, given, rfl⟩ := List.mem_map.mp member
    exact (typed.skills skill given).settled
  provider := by
    intro provider given
    obtain ⟨⟨organization, named⟩, url, placed⟩ := typed.provider provider given
    exact ⟨by simp [named], by simp [placed]⟩
  preferredTransport := rfl
  protocolVersion := rfl
  capabilities := typed.capabilities.settled
  defaultInputModes := ne_null_of_isStrings typed.defaultInputModes
  defaultOutputModes := ne_null_of_isStrings typed.defaultOutputModes
  reached := interfaces_ne_nil card
  supportedInterfaces := fun interface member => (interfaces_typed typed interface member).settled
  securitySchemes := fun scheme member => (typed.securitySchemes scheme member).settled
  security := fun requirement member => settled_of_isRequirement (typed.security requirement member)
  signatures := by
    obtain ⟨entries, given, _⟩ := typed.signatures
    have same : card.settle.signatures = .array entries := given
    simp [same]

theorem interfaces_settle (card : AgentCard) : card.settle.interfaces = card.interfaces := by
  have some_left := interfaces_ne_nil card
  rw [interfaces]
  split
  next none => exact absurd none some_left
  next => rfl

theorem encodeSkill_settle (skill : Skill) : encodeSkill skill.settle = encodeSkill skill := by
  have same : skill.settle.securityRequirements.getD [] = skill.securityRequirements.getD [] := by
    simp only [Skill.settle]
    split
    next none => rw [none]; rfl
    next => rfl
  rw [encodeSkill, encodeSkill, same]
  rfl

theorem encodeCapabilities_settle (capabilities : Capabilities) :
    encodeCapabilities capabilities.settle = encodeCapabilities capabilities := by
  have same : capabilities.settle.extensions.getD [] = capabilities.extensions.getD [] := by
    simp only [Capabilities.settle]
    split
    next none => rw [none]; rfl
    next => rfl
  rw [encodeCapabilities, encodeCapabilities, same]
  rfl

theorem encode_settle (card : AgentCard) : encodeAgentCard card.settle = encodeAgentCard card := by
  have skills : card.settle.skills.mapM encodeSkill = card.skills.mapM encodeSkill := by
    have each : encodeSkill ∘ Skill.settle = encodeSkill := funext encodeSkill_settle
    rw [settle, List.mapM_map, each]
  unfold encodeAgentCard
  rw [skills, interfaces_settle]
  simp only [settle, encodeCapabilities_settle]

/-- A card of the type is carried by its encoding, as far as the wire shows it. -/
theorem Typed.decode {card : AgentCard} (typed : card.Typed) :
    ∃ text, encodeAgentCard card = .ok text ∧ decodeAgentCard text = .ok card.settle := by
  rw [← encode_settle]
  exact decode_encode typed.settled

end AgentCard

/-! ## Settled cards under a reading -/

section Read

variable (reading : Json.Reading)

theorem AgentCard.preferredInterfaceUrl_shape (interfaces : List SupportedInterface) :
    preferredInterfaceUrl interfaces = .null ∨ ∃ text, preferredInterfaceUrl interfaces = .string text := by
  unfold preferredInterfaceUrl
  split
  · exact .inr ⟨_, rfl⟩
  · exact .inl rfl

/-- No entry is lost. -/
def Keeps : Prop := ∀ {α : Type} (entries : List (String × α)), ∀ entry ∈ entries, entry ∈ reading.members entries

theorem orderly_keeps : Keeps Json.orderly := fun _ _ member => List.mem_mergeSort.mpr member

theorem map_ne_null {value : Option Json} : value.map reading.value ≠ some .null ↔ value ≠ some .null := by
  cases value <;> simp [reading.value_eq_null]

variable {reading}

theorem SettledRequirement.read {requirement : Json} (settled : SettledRequirement requirement) :
    SettledRequirement (reading.value requirement) := by
  obtain ⟨object, unwrapped, scopes⟩ := settled
  refine ⟨by simpa using object, fun schemes found => ?_, fun absent entry member => ?_⟩
  · rw [reading.get?_value] at found
    obtain ⟨given, present, rfl⟩ := Option.map_eq_some_iff.mp found
    rw [reading.isObject_value]
    exact unwrapped given present
  · rw [reading.get?_value, Option.map_eq_none_iff] at absent
    cases requirement with
    | object entries =>
      rw [reading.object] at member
      obtain ⟨before, given, rfl⟩ := List.mem_map.mp member
      exact (reading.isArray_value _).trans (scopes absent before (reading.within _ _ given))
    | _ => cases object

theorem SettledRequirement.of_read (keeps : Keeps reading) {requirement : Json}
    (settled : SettledRequirement (reading.value requirement)) : SettledRequirement requirement := by
  obtain ⟨object, unwrapped, scopes⟩ := settled
  rw [reading.isObject_value] at object
  refine ⟨object, fun schemes found => ?_, fun absent entry member => ?_⟩
  · have read := unwrapped (reading.value schemes) (by rw [reading.get?_value, found]; rfl)
    rwa [reading.isObject_value] at read
  · have read := scopes (by rw [reading.get?_value, absent]; rfl)
    cases requirement with
    | object entries =>
      rw [reading.object] at read
      have one := read _ (List.mem_map_of_mem (keeps entries entry member))
      exact (reading.isArray_value _).symm.trans one
    | _ => cases object

theorem Skill.Settled.read {skill : Skill} (settled : skill.Settled) : (skill.read reading).Settled := by
  obtain ⟨inputs, outputs, some_required, each⟩ := settled
  refine ⟨(map_ne_null reading).mpr inputs, (map_ne_null reading).mpr outputs, ?_, ?_⟩
  · cases given : skill.securityRequirements <;> simp_all [Skill.read]
  · intro requirements given requirement member
    obtain ⟨before, present, rfl⟩ := Option.map_eq_some_iff.mp given
    obtain ⟨entry, listed, rfl⟩ := List.mem_map.mp member
    exact (each before present entry listed).read

theorem Skill.Settled.of_read (keeps : Keeps reading) {skill : Skill} (settled : (skill.read reading).Settled) :
    skill.Settled := by
  obtain ⟨inputs, outputs, some_required, each⟩ := settled
  refine ⟨(map_ne_null reading).mp inputs, (map_ne_null reading).mp outputs, ?_, ?_⟩
  · intro none
    exact some_required (by simp [Skill.read, none])
  · intro requirements given requirement member
    refine (each (requirements.map reading.value) ?_ _ (List.mem_map_of_mem member)).of_read keeps
    exact Option.map_eq_some_iff.mpr ⟨_, given, rfl⟩

theorem Capabilities.settled_read {capabilities : Capabilities} :
    (capabilities.read reading).Settled ↔ capabilities.Settled := by
  constructor
  · rintro ⟨streaming, push, history, extended, some_listed⟩
    refine ⟨(map_ne_null reading).mp streaming, (map_ne_null reading).mp push, Option.map_eq_none_iff.mp history,
      (map_ne_null reading).mp extended, fun none => some_listed (by simp [Capabilities.read, none])⟩
  · rintro ⟨streaming, push, history, extended, some_listed⟩
    refine ⟨(map_ne_null reading).mpr streaming, (map_ne_null reading).mpr push, Option.map_eq_none_iff.mpr history,
      (map_ne_null reading).mpr extended, fun none => some_listed ?_⟩
    obtain ⟨before, given, same⟩ := Option.map_eq_some_iff.mp none
    rw [given, List.map_eq_nil_iff.mp same]

theorem Provider.settled_read {provider : Provider} : (provider.read reading).Settled ↔ provider.Settled :=
  ⟨fun settled => ⟨(map_ne_null reading).mp settled.organization, (map_ne_null reading).mp settled.url⟩,
    fun settled => ⟨(map_ne_null reading).mpr settled.organization, (map_ne_null reading).mpr settled.url⟩⟩

theorem SupportedInterface.settled_read {interface : SupportedInterface} :
    (interface.read reading).Settled ↔ interface.Settled :=
  ⟨fun settled => ⟨(map_ne_null reading).mp settled.url, (map_ne_null reading).mp settled.protocolBinding,
      (map_ne_null reading).mp settled.protocolVersion⟩,
    fun settled => ⟨(map_ne_null reading).mpr settled.url, (map_ne_null reading).mpr settled.protocolBinding,
      (map_ne_null reading).mpr settled.protocolVersion⟩⟩

theorem SecurityScheme.settled_read {scheme : SecurityScheme} : (scheme.read reading).Settled ↔ scheme.Settled := by
  cases scheme <;> simp [SecurityScheme.read, SecurityScheme.Settled, reading.value_eq_null, reading.value_eq_bool]

theorem AgentCard.Settled.read {card : AgentCard} (settled : card.Settled) : (card.read reading).Settled where
  url := by
    rw [AgentCard.read, AgentCard.preferredInterfaceUrl_read, ← settled.url]
  skills := by
    intro skill member
    obtain ⟨before, given, rfl⟩ := List.mem_map.mp member
    exact (settled.skills before given).read
  provider := by
    intro provider given
    obtain ⟨before, present, rfl⟩ := Option.map_eq_some_iff.mp given
    exact Provider.settled_read.mpr (settled.provider before present)
  preferredTransport := reading.value_eq_null.mpr settled.preferredTransport
  protocolVersion := reading.value_eq_null.mpr settled.protocolVersion
  capabilities := Capabilities.settled_read.mpr settled.capabilities
  defaultInputModes := fun none => settled.defaultInputModes (reading.value_eq_null.mp none)
  defaultOutputModes := fun none => settled.defaultOutputModes (reading.value_eq_null.mp none)
  reached := fun none => settled.reached (List.map_eq_nil_iff.mp none)
  supportedInterfaces := by
    intro interface member
    obtain ⟨before, given, rfl⟩ := List.mem_map.mp member
    exact SupportedInterface.settled_read.mpr (settled.supportedInterfaces before given)
  securitySchemes := by
    intro scheme member
    obtain ⟨before, given, rfl⟩ := List.mem_map.mp member
    exact SecurityScheme.settled_read.mpr (settled.securitySchemes before (reading.within _ _ given))
  security := by
    intro requirement member
    obtain ⟨before, given, rfl⟩ := List.mem_map.mp member
    exact (settled.security before given).read
  signatures := ⟨fun none => settled.signatures.1 (reading.value_eq_null.mp none),
    fun none => settled.signatures.2 (reading.value_eq_nothing.mp none)⟩

theorem AgentCard.Settled.of_read (keeps : Keeps reading) {card : AgentCard}
    (settled : (card.read reading).Settled) : card.Settled where
  url := by
    have read := settled.url
    simp only [AgentCard.read, AgentCard.preferredInterfaceUrl_read] at read
    obtain none | ⟨text, given⟩ := AgentCard.preferredInterfaceUrl_shape card.supportedInterfaces
    · rw [none, reading.null] at read
      rw [none, reading.value_eq_null.mp read]
    · rw [given, reading.string] at read
      rw [given, reading.value_eq_string.mp read]
  skills := fun _ member => (settled.skills _ (List.mem_map_of_mem member)).of_read keeps
  provider := fun _ given =>
    Provider.settled_read.mp (settled.provider _ (Option.map_eq_some_iff.mpr ⟨_, given, rfl⟩))
  preferredTransport := reading.value_eq_null.mp settled.preferredTransport
  protocolVersion := reading.value_eq_null.mp settled.protocolVersion
  capabilities := Capabilities.settled_read.mp settled.capabilities
  defaultInputModes := fun none => settled.defaultInputModes (reading.value_eq_null.mpr none)
  defaultOutputModes := fun none => settled.defaultOutputModes (reading.value_eq_null.mpr none)
  reached := fun none => settled.reached (List.map_eq_nil_iff.mpr none)
  supportedInterfaces := fun _ member =>
    SupportedInterface.settled_read.mp (settled.supportedInterfaces _ (List.mem_map_of_mem member))
  securitySchemes := fun _ member => SecurityScheme.settled_read.mp
    (settled.securitySchemes _ (List.mem_map_of_mem (f := Prod.map id (SecurityScheme.read reading)) (keeps _ _ member)))
  security := fun _ member => (settled.security _ (List.mem_map_of_mem member)).of_read keeps
  signatures := ⟨fun none => settled.signatures.1 (reading.value_eq_null.mpr none),
    fun none => settled.signatures.2 (reading.value_eq_nothing.mpr none)⟩

end Read

end AshA2A.Protocol
