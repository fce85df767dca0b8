import AshA2A.Json.Spelling
import AshA2A.Proofs.CardCodec

/-! Which encodings of a card are encoded again as they are once they were decoded. -/

namespace AshA2A.Protocol.AgentCard

open Json (record)

/-- The value is decoded, and what is decoded is encoded as that value. -/
def Restated {α : Type} (decode : Json → Except Fault α) (encode : α → Except Fault Json) (text : Json) : Prop :=
  ∃ value, decode text = .ok value ∧ encode value = .ok text

theorem restated_mapM {α : Type} {decode : Json → Except Fault α} {encode : α → Except Fault Json} {texts : List Json} :
    (∃ values, texts.mapM decode = .ok values ∧ values.mapM encode = .ok texts) ↔
      ∀ text ∈ texts, Restated decode encode text := by
  induction texts with
  | nil => exact iff_of_true ⟨[], rfl, rfl⟩ (List.forall_mem_nil _)
  | cons text rest ih =>
    rw [List.forall_mem_cons, ← ih]
    constructor
    · rintro ⟨values, decoded, encoded⟩
      rw [List.mapM_cons] at decoded
      obtain ⟨value, first, decoded⟩ := bind_ok_iff.mp decoded
      obtain ⟨others, each, same⟩ := bind_ok_iff.mp decoded
      cases same
      rw [List.mapM_cons] at encoded
      obtain ⟨again, restated, encoded⟩ := bind_ok_iff.mp encoded
      obtain ⟨texts, back, same⟩ := bind_ok_iff.mp encoded
      cases same
      exact ⟨⟨value, first, restated⟩, others, each, back⟩
    · rintro ⟨⟨value, first, restated⟩, others, each, back⟩
      refine ⟨value :: others, ?_, ?_⟩
      · rw [List.mapM_cons, first, each]
        rfl
      · rw [List.mapM_cons, restated, back]
        rfl

/-- Where an item's text is encoded again just if the item fits, the texts are just if all items fit. -/
theorem restated_items {α : Type} {decode : Json → Except Fault α} {encode : α → Except Fault Json} {fits : α → Prop}
    (each : ∀ {item text}, encode item = .ok text → (Restated decode encode text ↔ fits item)) {items : List α}
    {texts : List Json} (encoded : items.mapM encode = .ok texts) :
    (∃ values, texts.mapM decode = .ok values ∧ values.mapM encode = .ok texts) ↔ ∀ item ∈ items, fits item := by
  refine restated_mapM.trans ?_
  obtain ⟨pairs, rfl, rfl, encodes⟩ := mapM_ok_iff.mp encoded
  constructor
  · intro restated item member
    obtain ⟨pair, given, rfl⟩ := List.mem_map.mp member
    exact (each (encodes pair given)).mp (restated pair.2 (List.mem_map_of_mem given))
  · intro fit text member
    obtain ⟨pair, given, rfl⟩ := List.mem_map.mp member
    exact (each (encodes pair given)).mpr (fit pair.1 (List.mem_map_of_mem given))

/-! ## Security requirements -/

/-- Lists of scopes; the encoder's own shape, for schemes of other names than the wrapper's; or a
member of the wrapper's name that wraps nothing. -/
def Plain (requirement : Json) : Prop :=
  match requirement.get? "schemes" with
  | none => ∀ entry ∈ requirement.entries, entry.2.isArray
  | some (.object schemes) =>
    requirement.entries = [("schemes", .object schemes)] ∧
      (∀ entry ∈ schemes, ∃ scopes, entry.2 = .object [("list", .array scopes)]) ∧ "schemes" ∉ schemes.map Prod.fst
  | some _ => True

theorem decodeScopes_wrapped {scopes decoded : Json} :
    decodeScopes (.object [("list", scopes)]) = .ok decoded ↔ scopes.isArray ∧ decoded = scopes := by
  cases scopes <;> simp [decodeScopes, Json.get?, Json.entries, Json.isArray, eq_comm]

/-- The entries of a map are read each for itself. -/
theorem mapNew_map_iff {α β : Type} {encode : α → Json} {decode : Json → Except Fault β} {fits : α → Prop} {read : α → β}
    (each : ∀ value result, decode (encode value) = .ok result ↔ fits value ∧ result = read value)
    {entries : List (String × α)} {results : List (String × β)} :
    mapNew (entries.map (Prod.map id encode)) decode = .ok results ↔
      (∀ entry ∈ entries, fits entry.2) ∧ results = entries.map (Prod.map id read) := by
  induction entries generalizing results with
  | nil => exact ⟨fun same => by cases same; exact ⟨nofun, rfl⟩, fun ⟨_, same⟩ => by cases same; rfl⟩
  | cons entry rest ih =>
    rw [List.map_cons, mapNew, List.mapM_cons, List.forall_mem_cons]
    constructor
    · intro decoded
      obtain ⟨first, head, decoded⟩ := bind_ok_iff.mp decoded
      obtain ⟨others, tail, same⟩ := bind_ok_iff.mp decoded
      obtain ⟨value, head, named⟩ := bind_ok_iff.mp head
      obtain ⟨fit, rfl⟩ := (each _ _).mp head
      obtain ⟨fits, rfl⟩ := ih.mp tail
      cases named
      cases same
      exact ⟨⟨fit, fits⟩, rfl⟩
    · rintro ⟨⟨fit, fits⟩, rfl⟩
      exact bind_ok_iff.mpr ⟨_, bind_ok_iff.mpr ⟨_, (each _ _).mpr ⟨fit, rfl⟩, rfl⟩,
        bind_ok_iff.mpr ⟨_, ih.mpr ⟨fits, rfl⟩, rfl⟩⟩

theorem mapNew_wrapped {flat decoded : List (String × Json)} :
    mapNew (flat.map (Prod.map id fun scopes => .object [("list", scopes)])) decodeScopes = .ok decoded ↔
      (∀ entry ∈ flat, entry.2.isArray) ∧ decoded = flat := by
  have each : ∀ scopes decoded : Json, decodeScopes (.object [("list", scopes)]) = .ok decoded ↔
      scopes.isArray ∧ decoded = id scopes := fun _ _ => decodeScopes_wrapped
  rw [mapNew_map_iff each]
  simp

theorem get?_schemes_eq_none {flat : List (String × Json)} :
    (Json.object flat).get? "schemes" = none ↔ "schemes" ∉ flat.map Prod.fst := by
  rw [Json.get?_object, List.lookup_eq_none_iff]
  constructor
  · intro absent member
    obtain ⟨entry, given, same⟩ := List.mem_map.mp member
    have other := absent entry (List.mem_reverse.mpr given)
    rw [same] at other
    exact absurd other (by simp)
  · intro absent entry given
    exact bne_iff_ne.mpr fun same => absent (List.mem_map.mpr ⟨entry, List.mem_reverse.mp given, same.symm⟩)

theorem isArray_of_decodeScopes {scopes decoded : Json} (given : decodeScopes scopes = .ok decoded) : decoded.isArray := by
  unfold decodeScopes at given
  split at given
  · cases given
    rfl
  · split at given
    · cases given
      rfl
    · cases given
  · cases given

/-- Scopes in the encoder's wrapping are some scopes that it wrapped. -/
theorem unwrap {schemes : List (String × Json)}
    (each : ∀ entry ∈ schemes, ∃ scopes, entry.2 = .object [("list", .array scopes)]) :
    ∃ flat : List (String × Json), schemes = flat.map (Prod.map id fun scopes => Json.object [("list", scopes)]) ∧
      ∀ entry ∈ flat, entry.2.isArray := by
  induction schemes with
  | nil => exact ⟨[], rfl, List.forall_mem_nil _⟩
  | cons entry rest ih =>
    obtain ⟨⟨scopes, wrapped⟩, others⟩ := List.forall_mem_cons.mp each
    obtain ⟨flat, rfl, lists⟩ := ih others
    refine ⟨(entry.1, .array scopes) :: flat, ?_, List.forall_mem_cons.mpr ⟨rfl, lists⟩⟩
    rw [List.map_cons, Prod.map_apply, ← wrapped]
    rfl

theorem wrapped_restated {flat schemes : List (String × Json)}
    (found : (Json.object flat).get? "schemes" = some (.object schemes)) :
    Restated decodeRequirement encodeSecurityRequirement (.object flat) ↔
      flat = [("schemes", .object schemes)] ∧
        (∀ entry ∈ schemes, ∃ scopes, entry.2 = .object [("list", .array scopes)]) ∧
        "schemes" ∉ schemes.map Prod.fst := by
  have read : decodeRequirement (.object flat) = (mapNew schemes decodeScopes).map .object := by
    simp only [decodeRequirement, found]
    cases mapNew schemes decodeScopes <;> rfl
  constructor
  · rintro ⟨value, decoded, encoded⟩
    rw [read] at decoded
    cases each : mapNew schemes decodeScopes with
    | error fault => rw [each] at decoded; cases decoded
    | ok plain =>
      rw [each] at decoded
      cases decoded
      obtain ⟨pairs, rfl, rfl, scopes⟩ := mapNew_ok_iff.mp each
      have lists : ∀ entry ∈ pairs.map (Prod.map id Prod.snd), entry.2.isArray := by
        intro entry member
        obtain ⟨pair, given, rfl⟩ := List.mem_map.mp member
        exact isArray_of_decodeScopes (scopes pair given)
      simp only [encodeSecurityRequirement] at encoded
      cases again : (Json.object (pairs.map (Prod.map id Prod.snd))).get? "schemes" with
      | some inner =>
        -- A scheme of the wrapper's name: the entry would have to be its own wrapping.
        rw [again] at encoded
        cases encoded
        cases found.symm.trans again
        obtain ⟨front, back, same, _⟩ := List.lookup_eq_some_iff.mp again
        have member : ("schemes", Json.object (pairs.map (Prod.map id Prod.fst))) ∈
            (pairs.map (Prod.map id Prod.snd)).reverse := by
          rw [show (pairs.map (Prod.map id Prod.snd)).reverse = front ++ _ :: back from same]
          simp
        cases lists _ (List.mem_reverse.mp member)
      | none =>
        rw [again] at encoded
        cases encoded
        have same : pairs.map (Prod.map id Prod.fst) =
            (pairs.map (Prod.map id Prod.snd)).map (Prod.map id fun scopes => .object [("list", scopes)]) := by
          simpa [Json.get?, Json.entries, List.lookup_cons, List.lookup_nil] using found.symm
        refine ⟨by rw [same], fun entry member => ?_, ?_⟩
        · rw [same] at member
          obtain ⟨flat, given, rfl⟩ := List.mem_map.mp member
          have listed := lists flat given
          cases given : flat.2 with
          | array scopes => exact ⟨scopes, by rw [Prod.map_snd, given]⟩
          | _ => rw [given] at listed; cases listed
        · have free := get?_schemes_eq_none.mp again
          simpa [List.map_map, Function.comp_def] using free
  · rintro ⟨rfl, each, free⟩
    obtain ⟨plain, rfl, lists⟩ := unwrap each
    refine ⟨.object plain, ?_, ?_⟩
    · rw [read, mapNew_wrapped.mpr ⟨lists, rfl⟩]
      rfl
    · have absent : (Json.object plain).get? "schemes" = none :=
        get?_schemes_eq_none.mpr (by simpa [List.map_map, Function.comp_def] using free)
      simp only [encodeSecurityRequirement, absent]

theorem requirement_restated {requirement text : Json} (encoded : encodeSecurityRequirement requirement = .ok text) :
    Restated decodeRequirement encodeSecurityRequirement text ↔ Plain requirement := by
  cases requirement with
  | object flat =>
    unfold Plain
    simp only [encodeSecurityRequirement] at encoded
    cases found : (Json.object flat).get? "schemes" with
    | none =>
      rw [found] at encoded
      cases encoded
      have read : ∀ value, decodeRequirement
          (.object [("schemes", .object (flat.map (Prod.map id fun scopes => .object [("list", scopes)])))]) = .ok value ↔
          (∀ entry ∈ flat, entry.2.isArray) ∧ value = .object flat := by
        intro value
        simp only [decodeRequirement, Json.get?, Json.entries, List.reverse_cons, List.reverse_nil, List.nil_append,
          List.lookup_cons, beq_self_eq_true]
        constructor
        · intro given
          obtain ⟨decoded, each, same⟩ := bind_ok_iff.mp given
          obtain ⟨lists, rfl⟩ := mapNew_wrapped.mp each
          cases same
          exact ⟨lists, rfl⟩
        · rintro ⟨lists, rfl⟩
          exact bind_ok_iff.mpr ⟨_, mapNew_wrapped.mpr ⟨lists, rfl⟩, rfl⟩
      constructor
      · rintro ⟨value, decoded, _⟩
        exact ((read value).mp decoded).1
      · intro lists
        exact ⟨.object flat, (read _).mpr ⟨lists, rfl⟩, by simp only [encodeSecurityRequirement, found]⟩
    | some schemes =>
      rw [found] at encoded
      cases encoded
      cases schemes with
      | object schemes => exact wrapped_restated found
      | _ =>
        exact iff_of_true ⟨.object flat, by simp only [decodeRequirement, found], by
          simp only [encodeSecurityRequirement, found]⟩ trivial
  | _ => cases encoded

theorem requirements_restated {requirements texts : List Json}
    (encoded : encodeSecurityRequirements requirements = .ok texts) :
    (∃ values, texts.mapM decodeRequirement = .ok values ∧ encodeSecurityRequirements values = .ok texts) ↔
      ∀ requirement ∈ requirements, Plain requirement :=
  restated_items requirement_restated encoded

/-! ## Skills -/

theorem unlessEmpty_array_inj {items others : List Json}
    (same : unlessEmpty (.array items) = unlessEmpty (.array others)) : items = others := by
  cases items <;> cases others <;> simp_all [unlessEmpty]

def requirementsOf (skill : Skill) : List Json := skill.securityRequirements.getD []

theorem known_known (value : Option Json) : known (known value) = known value := by
  cases value with
  | none => rfl
  | some value => cases value <;> rfl

/-- The text of a skill but for its requirements. -/
def skillText (skill : Skill) (requirements : List Json) : Json :=
  record
    [("id", skill.id), ("name", skill.name), ("description", skill.description), ("tags", skill.tags),
      ("inputModes", skill.inputModes.bind unlessNil), ("outputModes", skill.outputModes.bind unlessNil),
      ("securityRequirements", unlessEmpty (.array requirements))]

/-- A decoded skill but for its requirements. -/
def skillRead (skill : Skill) (requirements : Option (List Json)) : Skill :=
  { skill with
    inputModes := known skill.inputModes
    outputModes := known skill.outputModes
    securityRequirements := requirements }

theorem encodeSkill_ok_iff {skill : Skill} {text : Json} : encodeSkill skill = .ok text ↔
    ∃ requirements, encodeSecurityRequirements (requirementsOf skill) = .ok requirements ∧
      text = skillText skill requirements := by
  rw [encodeSkill, bind_ok_iff]
  exact exists_congr fun _ => and_congr_right fun _ => ⟨fun same => by cases same; rfl, fun same => by rw [same]; rfl⟩

theorem decodeSkill_text {skill : Skill} {requirements : List Json} :
    decodeSkill (skillText skill requirements) =
      (decodeSkillSecurity (skillText skill requirements)).map (skillRead skill) := by
  have fields : decodeSkill (skillText skill requirements) = (do
      let requirements ← decodeSkillSecurity (skillText skill requirements)
      return skillRead skill requirements) := by
    unfold decodeSkill
    rw [skillText, requireField_record (by simp) rfl, requireField_record (by simp) rfl,
      requireField_record (by simp) rfl]
    simp [getOr, Json.get?_record, List.lookup_cons, skillRead, known, bind, Except.bind]
  rw [fields]
  cases decodeSkillSecurity (skillText skill requirements) <;> rfl

theorem skillText_read {skill : Skill} {requirements : List Json} {read : Option (List Json)} :
    skillText (skillRead skill read) requirements = skillText skill requirements := by
  have modes : ∀ value : Option Json, (known value).bind unlessNil = value.bind unlessNil := known_known
  simp [skillText, skillRead, modes]

theorem skillText_inj {skill : Skill} {requirements others : List Json}
    (same : skillText skill requirements = skillText skill others) : requirements = others := by
  have found := congrArg (Json.get? · "securityRequirements") same
  simp only [skillText] at found
  rw [Json.get?_record (by simp), Json.get?_record (by simp)] at found
  exact unlessEmpty_array_inj (by simpa [List.lookup_cons, List.lookup_nil] using found)

theorem decodeSkillSecurity_text {skill : Skill} {requirements : List Json} :
    decodeSkillSecurity (skillText skill requirements) =
      if requirements = [] then .ok none else (requirements.mapM decodeRequirement).map some := by
  unfold decodeSkillSecurity skillText
  rw [Json.get?_record (by simp)]
  cases requirements with
  | nil => rfl
  | cons first rest => simp [List.lookup_cons, unlessEmpty, unlessNil, decodeCardSecurity]

theorem skill_restated {skill : Skill} {text : Json} (encoded : encodeSkill skill = .ok text) :
    Restated decodeSkill encodeSkill text ↔ ∀ requirement ∈ requirementsOf skill, Plain requirement := by
  obtain ⟨requirements, required, rfl⟩ := encodeSkill_ok_iff.mp encoded
  rw [← requirements_restated required]
  have again : ∀ read, encodeSkill (skillRead skill read) = .ok (skillText skill requirements) ↔
      encodeSecurityRequirements (read.getD []) = .ok requirements := by
    intro read
    rw [encodeSkill_ok_iff]
    simp only [skillText_read]
    constructor
    · rintro ⟨others, given, same⟩
      rw [skillText_inj same]
      exact given
    · exact fun given => ⟨_, given, rfl⟩
  by_cases none_required : requirements = []
  · refine iff_of_true ⟨skillRead skill none, ?_, ?_⟩ ⟨[], by rw [none_required]; rfl, by rw [none_required]; rfl⟩
    · rw [decodeSkill_text, decodeSkillSecurity_text, if_pos none_required]
      rfl
    · rw [again, none_required]
      rfl
  · constructor
    · rintro ⟨value, decoded, encoded⟩
      rw [decodeSkill_text, decodeSkillSecurity_text, if_neg none_required] at decoded
      cases read : requirements.mapM decodeRequirement with
      | error fault => rw [read] at decoded; cases decoded
      | ok values =>
        rw [read] at decoded
        cases decoded
        exact ⟨values, rfl, (again (some values)).mp encoded⟩
    · rintro ⟨values, decoded, encoded⟩
      refine ⟨skillRead skill (some values), ?_, (again (some values)).mpr encoded⟩
      rw [decodeSkill_text, decodeSkillSecurity_text, if_neg none_required, decoded]
      rfl

/-! ## Security schemes -/

/-- An API key has a place that counts as one. -/
def Placed : SecurityScheme → Prop
  | .apiKey _ location => truthy (some location) = some location
  | _ => True

/-- A decoded scheme. -/
def schemeRead : SecurityScheme → SecurityScheme
  | .oauth2 flows metadata => .oauth2 flows ((truthy (some metadata)).getD .null)
  | scheme => scheme

theorem encodeSecurityScheme_schemeRead (scheme : SecurityScheme) :
    encodeSecurityScheme (schemeRead scheme) = encodeSecurityScheme scheme := by
  cases scheme with
  | oauth2 flows metadata =>
    cases metadata with
    | bool flag => cases flag <;> rfl
    | _ => rfl
  | _ => rfl

theorem truthy_cases (value : Json) : truthy (some value) = some value ∨ truthy (some value) = none := by
  cases value with
  | bool flag => cases flag <;> simp [truthy]
  | _ => simp [truthy]

theorem decodeSecurityScheme_text (scheme result : SecurityScheme) :
    decodeSecurityScheme (encodeSecurityScheme scheme) = .ok result ↔ Placed scheme ∧ result = schemeRead scheme := by
  cases scheme with
  | apiKey name location =>
    obtain placed | missing := truthy_cases location
    · have read : decodeSecurityScheme (encodeSecurityScheme (.apiKey name location)) = .ok (.apiKey name location) := by
        simp [decodeSecurityScheme, encodeSecurityScheme, Json.get?, Json.entries, List.lookup_cons, List.lookup_nil,
          fetch, placed, bind, Except.bind, pure, Except.pure]
      rw [read]
      simp [Placed, placed, schemeRead, eq_comm]
    · have read : decodeSecurityScheme (encodeSecurityScheme (.apiKey name location)) = .error .raised := by
        simp [decodeSecurityScheme, encodeSecurityScheme, Json.get?, Json.entries, List.lookup_cons, List.lookup_nil,
          fetch, missing, bind, Except.bind]
      rw [read]
      simp [Placed, missing]
  | oauth2 flows metadata =>
    have read : decodeSecurityScheme (encodeSecurityScheme (.oauth2 flows metadata)) =
        .ok (schemeRead (.oauth2 flows metadata)) := by
      simp [decodeSecurityScheme, encodeSecurityScheme, Json.get?, Json.entries, record, List.lookup_cons,
        List.lookup_nil, fetch, getOr, schemeRead, bind, Except.bind, pure, Except.pure]
      cases truthy (some metadata) <;> rfl
    rw [read, Except.ok.injEq, eq_comm]
    exact (and_iff_right trivial).symm
  | httpAuth scheme => exact ⟨fun same => ⟨trivial, (Except.ok.inj same).symm⟩, fun both => by rw [both.2]; rfl⟩
  | openIdConnect url => exact ⟨fun same => ⟨trivial, (Except.ok.inj same).symm⟩, fun both => by rw [both.2]; rfl⟩
  | mutualTLS => exact ⟨fun same => ⟨trivial, (Except.ok.inj same).symm⟩, fun both => by rw [both.2]; rfl⟩

theorem schemes_read {schemes read : List (String × SecurityScheme)} :
    mapNew (schemes.map (Prod.map id encodeSecurityScheme)) decodeSecurityScheme = .ok read ↔
      (∀ scheme ∈ schemes, Placed scheme.2) ∧ read = schemes.map (Prod.map id schemeRead) :=
  mapNew_map_iff decodeSecurityScheme_text

/-! ## What is always read back -/

def capabilitiesRead (capabilities : Capabilities) : Capabilities where
  streaming := known capabilities.streaming
  pushNotifications := known capabilities.pushNotifications
  extendedAgentCard := known capabilities.extendedAgentCard
  extensions := capabilities.extensions.filter fun extensions => !extensions.isEmpty

def interfaceRead (interface : SupportedInterface) : SupportedInterface :=
  ⟨known interface.url, known interface.protocolBinding, known interface.protocolVersion⟩

def providerRead (provider : Provider) : Provider := ⟨known provider.organization, known provider.url⟩

theorem known_ne_null (value : Option Json) : known value ≠ some .null := by
  cases value with
  | none => simp [known]
  | some value => cases value <;> simp [known, unlessNil]

theorem encodeCapabilities_capabilitiesRead (capabilities : Capabilities) :
    encodeCapabilities (capabilitiesRead capabilities) = encodeCapabilities capabilities := by
  have listed : (capabilitiesRead capabilities).extensions.getD [] = capabilities.extensions.getD [] := by
    cases given : capabilities.extensions with
    | none => simp only [capabilitiesRead, given, Option.filter_none]
    | some extensions =>
      simp only [capabilitiesRead, given]
      cases extensions <;> rfl
  rw [encodeCapabilities, encodeCapabilities, listed]
  simp only [capabilitiesRead, known_known]

theorem capabilities_read (capabilities : Capabilities) :
    decodeCardCapabilities (encodeCapabilities capabilities) = .ok (capabilitiesRead capabilities) := by
  rw [← encodeCapabilities_capabilitiesRead]
  refine capabilities_back ⟨known_ne_null _, known_ne_null _, rfl, known_ne_null _, fun given => ?_⟩
  obtain ⟨_, listed⟩ := Option.filter_eq_some_iff.mp given
  cases listed

theorem encodeInterface_interfaceRead (interface : SupportedInterface) :
    encodeInterface (interfaceRead interface) = encodeInterface interface := by
  simp only [encodeInterface, interfaceRead, known_known]

theorem interfaces_decoded (interfaces : List SupportedInterface) :
    (interfaces.map encodeInterface).mapM decodeInterface = .ok (interfaces.map interfaceRead) := by
  have same : interfaces.map encodeInterface = (interfaces.map interfaceRead).map encodeInterface := by
    rw [List.map_map]
    exact List.map_congr_left fun interface _ => (encodeInterface_interfaceRead interface).symm
  rw [same]
  refine mapM_ok_of_map fun interface member => interface_back ?_
  obtain ⟨interface, _, rfl⟩ := List.mem_map.mp member
  exact ⟨known_ne_null _, known_ne_null _, known_ne_null _⟩

theorem encodeProvider_providerRead (provider : Provider) :
    encodeProvider (providerRead provider) = encodeProvider provider := by
  simp only [encodeProvider, providerRead, known_known]

theorem provider_decoded (provider : Option Provider) :
    decodeCardProvider ((provider.map encodeProvider).getD .null) = .ok (provider.map providerRead) := by
  cases provider with
  | none => rfl
  | some provider =>
    rw [Option.map_some, Option.getD_some, ← encodeProvider_providerRead]
    exact provider_back ⟨known_ne_null _, known_ne_null _⟩

/-! ## Cards -/

/-- The text of a card but for its skills and requirements. -/
def cardText (card : AgentCard) (skills security : List Json) : Json :=
  record
    [("name", card.name), ("description", card.description), ("version", card.version),
      ("skills", some (.array skills)), ("capabilities", encodeCapabilities card.capabilities),
      ("defaultInputModes", cardField card.defaultInputModes (.array [.string "text/plain"])),
      ("defaultOutputModes", cardField card.defaultOutputModes (.array [.string "text/plain"])),
      ("supportedInterfaces", some (.array (card.interfaces.map encodeInterface))),
      ("provider", card.provider.map encodeProvider), ("documentationUrl", unlessNil card.documentationUrl),
      ("iconUrl", unlessNil card.iconUrl),
      ("securitySchemes", unlessEmpty (.object (card.securitySchemes.map (Prod.map id encodeSecurityScheme)))),
      ("securityRequirements", unlessEmpty (.array security)),
      ("signatures", unlessEmpty (cardField card.signatures (.array [])))]

/-- A decoded card but for its skills and requirements. -/
def cardRead (card : AgentCard) (skills : List Skill) (schemes : List (String × SecurityScheme))
    (security : List Json) : AgentCard where
  name := card.name
  description := card.description
  url := preferredInterfaceUrl (card.interfaces.map interfaceRead)
  version := card.version
  skills := skills
  provider := card.provider.map providerRead
  documentationUrl := card.documentationUrl
  iconUrl := card.iconUrl
  protocolVersion := .null
  capabilities := capabilitiesRead card.capabilities
  defaultInputModes := cardField card.defaultInputModes (.array [.string "text/plain"])
  defaultOutputModes := cardField card.defaultOutputModes (.array [.string "text/plain"])
  supportedInterfaces := card.interfaces.map interfaceRead
  securitySchemes := schemes
  security := security
  signatures := (unlessEmpty (cardField card.signatures (.array []))).getD (.array [])

theorem encodeAgentCard_ok_iff {card : AgentCard} {text : Json} : encodeAgentCard card = .ok text ↔
    ∃ skills security, card.skills.mapM encodeSkill = .ok skills ∧
      encodeSecurityRequirements card.security = .ok security ∧ text = cardText card skills security := by
  rw [encodeAgentCard, bind_ok_iff]
  constructor
  · rintro ⟨skills, skilled, rest⟩
    obtain ⟨security, required, same⟩ := bind_ok_iff.mp rest
    cases same
    exact ⟨skills, security, skilled, required, rfl⟩
  · rintro ⟨skills, security, skilled, required, rfl⟩
    exact ⟨skills, skilled, bind_ok_iff.mpr ⟨security, required, rfl⟩⟩

theorem decodeAgentCard_text (card : AgentCard) (skills security : List Json) :
    decodeAgentCard (cardText card skills security) = (do
      let skills ← skills.mapM decodeSkill
      let schemes ← mapNew (card.securitySchemes.map (Prod.map id encodeSecurityScheme)) decodeSecurityScheme
      let security ← security.mapM decodeRequirement
      return cardRead card skills schemes security) := by
  have schemes : decodeCardSecuritySchemes (getOr (cardText card skills security) "securitySchemes" (.object [])) =
      mapNew (card.securitySchemes.map (Prod.map id encodeSecurityScheme)) decodeSecurityScheme := by
    rw [cardText, getOr_record (by simp) rfl]
    cases card.securitySchemes <;> rfl
  have secured : decodeCardSecurity ((truthy ((cardText card skills security).get? "securityRequirements")).getD
      (getOr (cardText card skills security) "security" (.array []))) = security.mapM decodeRequirement := by
    rw [cardText, Json.get?_record (by simp), getOr_absent (by simp) rfl]
    exact congrArg decodeCardSecurity (truthy_unlessEmpty security)
  have interfaces : decodeCardInterfaces (getOr (cardText card skills security) "supportedInterfaces" (.array [])) =
      .ok (card.interfaces.map interfaceRead) := by
    rw [cardText, getOr_record (by simp) rfl]
    exact interfaces_decoded card.interfaces
  have capabilities : decodeCardCapabilities (getOr (cardText card skills security) "capabilities" (.object [])) =
      .ok (capabilitiesRead card.capabilities) := by
    rw [cardText, getOr_record (by simp) rfl]
    exact capabilities_read card.capabilities
  have provider : decodeCardProvider (getOr (cardText card skills security) "provider" .null) =
      .ok (card.provider.map providerRead) := by
    rw [cardText, getOr_record (by simp) rfl]
    exact provider_decoded card.provider
  have required : ∀ name value, (name, some value) ∈ [("name", some card.name), ("description", some card.description),
      ("version", some card.version), ("skills", some (.array skills))] →
      requireField (cardText card skills security) name = .ok value := by
    simp only [List.mem_cons, List.not_mem_nil, or_false, Prod.mk.injEq, Option.some.injEq]
    rintro name value (⟨rfl, rfl⟩ | ⟨rfl, rfl⟩ | ⟨rfl, rfl⟩ | ⟨rfl, rfl⟩) <;> exact requireField_record (by simp) rfl
  unfold decodeAgentCard
  rw [required "name" card.name (by simp), required "description" card.description (by simp),
    required "version" card.version (by simp), required "skills" (.array skills) (by simp), interfaces, capabilities,
    provider, schemes, secured]
  have shown : ∀ skills' schemes' security', cardRead card skills' schemes' security' = {
      name := card.name
      description := card.description
      version := card.version
      skills := skills'
      capabilities := capabilitiesRead card.capabilities
      provider := card.provider.map providerRead
      security := security'
      url := (truthy ((cardText card skills security).get? "url")).getD
        (preferredInterfaceUrl (card.interfaces.map interfaceRead))
      defaultInputModes :=
        getOr (cardText card skills security) "defaultInputModes" (.array [.string "text/plain"])
      defaultOutputModes :=
        getOr (cardText card skills security) "defaultOutputModes" (.array [.string "text/plain"])
      documentationUrl := getOr (cardText card skills security) "documentationUrl" .null
      iconUrl := getOr (cardText card skills security) "iconUrl" .null
      protocolVersion := getOr (cardText card skills security) "protocolVersion" .null
      supportedInterfaces := card.interfaces.map interfaceRead
      securitySchemes := schemes'
      signatures := getOr (cardText card skills security) "signatures" (.array []) } := by
    intro skills' schemes' security'
    simp [cardText, getOr, Json.get?_record, List.lookup_cons, List.lookup_nil, cardRead, truthy, unlessNil_getD]
  simp only [shown]
  rfl

/-- The text of what was read is that text again, where the skills, schemes and requirements are. -/
theorem cardText_cardRead {card : AgentCard} {read : List Skill} {values skills security : List Json} :
    cardText (cardRead card read (card.securitySchemes.map (Prod.map id schemeRead)) values) skills security =
      cardText card skills security := by
  have some_left : (card.interfaces.map interfaceRead) ≠ [] := fun none_left =>
    interfaces_ne_nil card (List.map_eq_nil_iff.mp none_left)
  have interfaces : (cardRead card read (card.securitySchemes.map (Prod.map id schemeRead)) values).interfaces =
      card.interfaces.map interfaceRead := by
    unfold AgentCard.interfaces
    split
    next given => exact absurd given some_left
    next => rfl
  have restated : (card.interfaces.map interfaceRead).map encodeInterface = card.interfaces.map encodeInterface := by
    rw [List.map_map]
    exact List.map_congr_left fun interface _ => encodeInterface_interfaceRead interface
  have schemes : (card.securitySchemes.map (Prod.map id schemeRead)).map (Prod.map id encodeSecurityScheme) =
      card.securitySchemes.map (Prod.map id encodeSecurityScheme) := by
    rw [List.map_map]
    exact List.map_congr_left fun scheme _ => Prod.ext rfl (encodeSecurityScheme_schemeRead scheme.2)
  have provider : (card.provider.map providerRead).map encodeProvider = card.provider.map encodeProvider := by
    rw [Option.map_map]
    exact Option.map_congr fun provider _ => encodeProvider_providerRead provider
  have modes : ∀ value fallback, fallback ≠ Json.null → cardField (cardField value fallback) fallback =
      cardField value fallback := by
    intro value fallback given
    refine cardField_of_ne ?_
    cases value <;> simp_all [cardField, unlessNil]
  have signatures : ∀ value, unlessEmpty (cardField ((unlessEmpty (cardField value (.array []))).getD (.array []))
      (.array [])) = unlessEmpty (cardField value (.array [])) := by
    intro value
    cases value with
    | array items => cases items <;> rfl
    | object entries => cases entries <;> rfl
    | _ => rfl
  rw [cardText, interfaces, restated]
  simp only [cardRead, schemes, provider, encodeCapabilities_capabilitiesRead, signatures,
    modes _ _ (by simp : Json.array [.string "text/plain"] ≠ .null)]
  rfl

theorem cardText_inj {card : AgentCard} {skills security skills' security' : List Json}
    (same : cardText card skills security = cardText card skills' security') :
    skills = skills' ∧ security = security' := by
  have first := congrArg (Json.get? · "skills") same
  have second := congrArg (Json.get? · "securityRequirements") same
  simp only [cardText] at first second
  rw [Json.get?_record (by simp), Json.get?_record (by simp)] at first second
  exact ⟨by simpa [List.lookup_cons, List.lookup_nil] using first,
    unlessEmpty_array_inj (by simpa [List.lookup_cons, List.lookup_nil] using second)⟩

/-- The text of the card is encoded again as it is. -/
structure Stable (card : AgentCard) : Prop where
  skills : ∀ skill ∈ card.skills, ∀ requirement ∈ requirementsOf skill, Plain requirement
  schemes : ∀ scheme ∈ card.securitySchemes, Placed scheme.2
  security : ∀ requirement ∈ card.security, Plain requirement

theorem card_restated {card : AgentCard} {text : Json} (encoded : encodeAgentCard card = .ok text) :
    Restated decodeAgentCard encodeAgentCard text ↔ card.Stable := by
  obtain ⟨skills, security, skilled, required, rfl⟩ := encodeAgentCard_ok_iff.mp encoded
  have skills_back := restated_items skill_restated skilled
  have security_back := requirements_restated required
  constructor
  · rintro ⟨value, decoded, again⟩
    rw [decodeAgentCard_text] at decoded
    obtain ⟨read, skills_read, decoded⟩ := bind_ok_iff.mp decoded
    obtain ⟨schemes, schemed, decoded⟩ := bind_ok_iff.mp decoded
    obtain ⟨values, security_read, same⟩ := bind_ok_iff.mp decoded
    cases same
    obtain ⟨placed, rfl⟩ := schemes_read.mp schemed
    obtain ⟨skills', security', skilled', required', same⟩ := encodeAgentCard_ok_iff.mp again
    rw [cardText_cardRead] at same
    obtain ⟨rfl, rfl⟩ := cardText_inj same
    exact ⟨skills_back.mp ⟨read, skills_read, skilled'⟩, placed, security_back.mp ⟨values, security_read, required'⟩⟩
  · intro stable
    obtain ⟨read, skills_read, skilled'⟩ := skills_back.mpr stable.skills
    obtain ⟨values, security_read, required'⟩ := security_back.mpr stable.security
    refine ⟨cardRead card read (card.securitySchemes.map (Prod.map id schemeRead)) values, ?_, ?_⟩
    · rw [decodeAgentCard_text]
      exact bind_ok_iff.mpr ⟨_, skills_read, bind_ok_iff.mpr ⟨_, schemes_read.mpr ⟨stable.schemes, rfl⟩,
        bind_ok_iff.mpr ⟨_, security_read, rfl⟩⟩⟩
    · exact encodeAgentCard_ok_iff.mpr ⟨skills, security, skilled', required', cardText_cardRead.symm⟩

/-! ## Over the wire -/

theorem plain_of_isRequirement {requirement : Json} (typed : isRequirement requirement) : Plain requirement := by
  obtain ⟨_, unwrapped, scopes⟩ := settled_of_isRequirement typed
  unfold Plain
  split
  next absent => exact scopes absent
  next schemes found => cases unwrapped _ found
  next => trivial

theorem Typed.stable {card : AgentCard} (typed : card.Typed) : card.Stable where
  skills := by
    intro skill member requirement given
    unfold requirementsOf at given
    cases some_required : skill.securityRequirements with
    | none => rw [some_required] at given; cases given
    | some requirements =>
      rw [some_required] at given
      exact plain_of_isRequirement ((typed.skills skill member).securityRequirements requirements some_required _ given)
  schemes := by
    intro scheme member
    have settled := (typed.securitySchemes scheme member).settled
    cases given : scheme.2 with
    | apiKey name location =>
      rw [given] at settled
      obtain ⟨present, held⟩ := settled
      cases location with
      | bool flag => cases flag <;> simp_all [Placed, truthy]
      | null => exact absurd rfl present
      | _ => rfl
    | _ => trivial
  security := fun requirement member => plain_of_isRequirement (typed.security requirement member)

/-- The card that is decoded from the bytes of the text has the text for its encoding. -/
def Fixpoint (library : Json.Library) (text : Json) : Prop :=
  ∃ bytes json back, library.encode text = some bytes ∧ library.plain bytes = some json ∧
    decodeAgentCard json = .ok back ∧ encodeAgentCard back = .ok text

theorem fixpoint_iff {library : Json.Library} (faithful : library.Faithful) {card : AgentCard}
    (maps : card.read Json.plainly = card) {text : Json} (encoded : encodeAgentCard card = .ok text) :
    Fixpoint library text ↔ Restated decodeAgentCard encodeAgentCard text := by
  have plain : text.lastWins = text := by
    have read := encodeAgentCard_read plainly_inPlace card
    rw [maps, encoded] at read
    exact (Except.ok.inj read).symm
  have distinct : text.distinct := plain ▸ Json.distinct_lastWins text
  obtain ⟨bytes, written, read⟩ := faithful.plain distinct
  constructor
  · rintro ⟨bytes', json, back, written', read', decoded, again⟩
    cases written.symm.trans written'
    cases read.symm.trans read'
    exact ⟨back, decoded, again⟩
  · rintro ⟨back, decoded, again⟩
    exact ⟨bytes, text, back, written, read, decoded, again⟩

/-- The encoding of a card that the encoder takes is a fixpoint just where the card is stable, as
every card of the type is. -/
theorem card_fixpoint {library : Json.Library} (faithful : library.Faithful) {card : AgentCard}
    (maps : card.read Json.plainly = card) {text : Json} (encoded : encodeAgentCard card = .ok text) :
    (Fixpoint library text ↔ card.Stable) ∧ (card.Typed → Fixpoint library text) := by
  have restated := (fixpoint_iff faithful maps encoded).trans (card_restated encoded)
  exact ⟨restated, fun typed => restated.mpr typed.stable⟩

def guardedCard : AgentCard where
  name := .string "guarded"
  description := .string ""
  url := .string "https://a.example"
  version := .string "1"
  skills := [{ id := .string "s", name := .string "S", description := .string "", tags := .array []
               securityRequirements := some [.object [("key", .array [.string "read"])]] }]
  securitySchemes := [("key", .apiKey (.string "x-key") (.string "header"))]
  security := [.object [("key", .array [])]]

theorem card_fixpoint_guarded : ∃ text, encodeAgentCard guardedCard = .ok text ∧
    (Fixpoint Json.Spelling.library text ↔ guardedCard.Stable) ∧
    (guardedCard.Typed → Fixpoint Json.Spelling.library text) :=
  ⟨_, rfl, card_fixpoint Json.Spelling.library_faithful rfl rfl⟩

/-- An entry in the encoder's own shape for a scheme of the wrapper's name. -/
def wrapperCard : AgentCard :=
  { guardedCard with
    skills := []
    securitySchemes := []
    security := [.object [("schemes", .object [("schemes", .object [("list", .array [])])])]] }

/-- A key that is sent nowhere. -/
def placelessCard : AgentCard :=
  { guardedCard with
    skills := []
    securitySchemes := [("key", .apiKey (.string "x-key") .null)]
    security := [] }

/-- The encoder takes the card, and its encoding is not encoded again as it is. -/
theorem accepted_not_fixpoint :
    (∃ text, encodeAgentCard wrapperCard = .ok text ∧ ¬ Fixpoint Json.Spelling.library text) ∧
      ∃ text, encodeAgentCard placelessCard = .ok text ∧ ¬ Fixpoint Json.Spelling.library text := by
  have stable_of : ∀ {card text}, card.read Json.plainly = card → encodeAgentCard card = .ok text →
      Fixpoint Json.Spelling.library text → card.Stable := fun maps encoded fixed =>
    (card_restated encoded).mp ((fixpoint_iff Json.Spelling.library_faithful maps encoded).mp fixed)
  constructor
  · obtain ⟨text, encoded⟩ : ∃ text, encodeAgentCard wrapperCard = .ok text := ⟨_, rfl⟩
    refine ⟨text, encoded, fun fixed => ?_⟩
    have plain := (stable_of rfl encoded fixed).security _ (List.mem_singleton_self _)
    exact plain.2.2 (List.mem_singleton_self _)
  · obtain ⟨text, encoded⟩ : ∃ text, encodeAgentCard placelessCard = .ok text := ⟨_, rfl⟩
    refine ⟨text, encoded, fun fixed => ?_⟩
    cases (stable_of rfl encoded fixed).schemes _ (List.mem_singleton_self _)

end AshA2A.Protocol.AgentCard
