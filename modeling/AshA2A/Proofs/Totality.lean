import AshA2A.Outcome
import AshA2A.Protocol.JSONRPC

/-! Which JSON the decoders read, and which they survive: where none of them raises. -/

namespace AshA2A.Protocol

open AgentCard (truthy getOr)

/-! ## Members -/

namespace Shape

def object : Check Json := .only fun json => json.isObject

/-- A member that has to be there. -/
def present (name : String) : Check Json := ⟨fun json => json.isObject ∧ (json.get? name).isSome, fun json => json.isObject⟩

/-- A member that has to be there, and what is asked of it. -/
def required (name : String) (check : Check Json) : Check Json where
  reads json := json.isObject ∧ ∃ value ∈ json.get? name, check.reads value
  steady json := json.isObject ∧ ∀ value ∈ json.get? name, check.steady value

/-- A member that may be absent. -/
def optional (name : String) (fallback : Json) (check : Check Json) : Check Json :=
  check.on fun json => getOr json name fallback

/-- Null, or a text that is read as asked; a text that is not read is refused. -/
def text (readable : String → Prop) : Check Json where
  reads
    | .null => True
    | .string text => readable text
    | _ => False
  steady
    | .null | .string _ => True
    | _ => False

/-- Null, or a value that is checked. -/
def nullable (check : Check Json) : Check Json :=
  .choose fun
    | .null => .accepted
    | _ => check

/-- The items of a list; a map without entries counts as an empty list. -/
def items (check : Check Json) : Check Json where
  reads
    | .array items => check.each.reads items
    | json => json = .object []
  steady
    | .array items => check.each.steady items
    | json => json = .object []

variable {ε α β : Type} {crash : ε} {json : Json} {name : String}

/-- The function takes the member of the name, and refuses an object without it. -/
structure Fetches (crash : ε) (name : String) (fetch : Json → Except ε Json) : Prop where
  described : (present name).Describes crash fetch
  value {json value : Json} : fetch json = .ok value → json.get? name = some value

namespace Fetches

variable {fetch : Json → Except ε Json} {check rest : Check Json} {next : Json → Except ε α} {last : α → Except ε β}

/-- The member goes on to be decoded. -/
theorem bind (fetches : Fetches crash name fetch) (described : check.Describes crash next) :
    Follows crash (fetch json >>= next) ((required name check).reads json) ((required name check).steady json) := by
  have taken (value : Json) (given : fetch json = .ok value) :
      Follows crash (next value) (∃ value ∈ json.get? name, check.reads value)
        (∀ value ∈ json.get? name, check.steady value) := by
    have held := fetches.value given
    refine (described value).iff ?_ ?_
    · simp [held]
    · simp [held]
  refine ((fetches.described json).bind taken).iff ?_ ?_
  · constructor
    · exact fun ⟨⟨isObject, _⟩, read⟩ => ⟨isObject, read⟩
    · rintro ⟨isObject, value, held, read⟩
      exact ⟨⟨isObject, by rw [held]; rfl⟩, value, held, read⟩
  · refine and_congr_right fun isObject => ⟨fun kept value held => ?_, fun kept _ => kept⟩
    exact kept ⟨isObject, by rw [held]; rfl⟩ value held

/-- The member is decoded before the rest of the object. -/
theorem andThen (fetches : Fetches crash name fetch) (described : check.Describes crash next)
    (others : ∀ value, Follows crash (last value) (rest.reads json) (rest.steady json)) :
    Follows crash (fetch json >>= fun value => next value >>= last)
      (((required name check).andThen rest).reads json) (((required name check).andThen rest).steady json) := by
  rw [← bind_assoc]
  exact (fetches.bind described).bind fun value _ => others value

end Fetches

theorem within_object {rest : Check Json} {result : Except ε α} (isObject : json.isObject)
    (others : Follows crash result (rest.reads json) (rest.steady json)) :
    Follows crash result ((object.andThen rest).reads json) ((object.andThen rest).steady json) :=
  others.iff (and_iff_right isObject).symm ⟨fun kept => ⟨isObject, fun _ => kept⟩, fun both => both.2 isObject⟩

/-- What is decoded of an object, and of nothing else. -/
theorem object_andThen {rest : Check Json} {result : Except ε α}
    (others : json.isObject → Follows crash result (rest.reads json) (rest.steady json)) :
    Follows crash (if json.isObject then result else .error crash) ((object.andThen rest).reads json)
      ((object.andThen rest).steady json) := by
  split
  next isObject => exact within_object isObject (others isObject)
  next other => exact .crashed (fun both => other both.1) fun both => other both.1

end Shape

namespace JSON

open Shape (object_andThen Fetches object present required optional text nullable items)

def timestampCheck : Check Json := text fun text => (Calendar.fromIso8601 text).isSome

def bytesCheck : Check Json := text fun text => (Base64Padded.decode text).isSome

def stateCheck : Check Json := ⟨fun json => ∃ text, json = .string text ∧ (stringToState text).isSome, fun _ => True⟩

def roleCheck : Check Json := ⟨fun json => ∃ text, json = .string text ∧ (stringToRole text).isSome, fun _ => True⟩

def fileContentCheck : Check Json := object.andThen (bytesCheck.on fun json => either json "bytes" "fileWithBytes")

def textPartCheck : Check Json := present "text"

def dataPartCheck : Check Json := present "data"

def filePartCheck : Check Json := required "file" fileContentCheck

def flatFilePartCheck : Check Json := optional "raw" .null bytesCheck

def inferredPartCheck (json : Json) : Check Json :=
  if (json.get? "text").isSome then textPartCheck
  else if (json.get? "data").isSome then dataPartCheck
  else if (json.get? "file").isSome then filePartCheck
  else if (json.get? "raw").isSome ∨ (json.get? "url").isSome then flatFilePartCheck
  else .refused

def partCheck : Check Json :=
  object.andThen <| .choose fun json =>
    match getOr json "kind" .null with
    | .string "text" => textPartCheck
    | .string "file" => filePartCheck
    | .string "data" => dataPartCheck
    | .null => inferredPartCheck json
    | _ => .refused

/-- An empty list is refused, and an empty map is no list. -/
def partsCheck : Check Json where
  reads json := ∃ part parts, json = .array (part :: parts) ∧ partCheck.each.reads (part :: parts)
  steady json := ∃ parts, json = .array parts ∧ partCheck.each.steady parts

def messageCheck : Check Json :=
  (present "messageId").andThen <| (required "role" roleCheck).andThen <| required "parts" partsCheck

def artifactCheck : Check Json := required "parts" (items partCheck)

def statusCheck : Check Json :=
  (required "state" stateCheck).andThen <| (optional "message" .null (nullable messageCheck)).andThen <|
    optional "timestamp" .null timestampCheck

def taskCheck : Check Json :=
  (present "id").andThen <| (required "status" statusCheck).andThen <|
    (optional "history" (.array []) (items messageCheck)).andThen <|
      optional "artifacts" (.array []) (items artifactCheck)

def statusUpdateCheck : Check Json := (present "taskId").andThen <| required "status" statusCheck

def artifactUpdateCheck : Check Json := (present "taskId").andThen <| required "artifact" artifactCheck

def bareEventCheck (json : Json) : Check Json :=
  if (json.get? "taskId").isSome ∧ filled json "status" then statusUpdateCheck
  else if (json.get? "taskId").isSome ∧ filled json "artifact" then artifactUpdateCheck
  else if (json.get? "messageId").isSome ∧ listed json "parts" then messageCheck
  else if (json.get? "id").isSome ∧ filled json "status" then taskCheck
  else .refused

def eventByKindCheck : Check Json :=
  object.andThen <| .choose fun json =>
    match getOr json "kind" .null with
    | .string "status-update" => statusUpdateCheck
    | .string "artifact-update" => artifactUpdateCheck
    | .string "task" => taskCheck
    | .string "message" => messageCheck
    | .null => bareEventCheck json
    | _ => .refused

/-- The check of a wrapped event is about what the wrapper holds. -/
def eventCheck : Check Json :=
  .choose fun json =>
    match wrapped json "task", wrapped json "message", wrapped json "statusUpdate", wrapped json "artifactUpdate",
      wrapped json "status_update", wrapped json "artifact_update" with
    | some inner, _, _, _, _, _ => taskCheck.on fun _ => inner
    | _, some inner, _, _, _, _ => messageCheck.on fun _ => inner
    | _, _, some inner, _, _, _ => statusUpdateCheck.on fun _ => inner
    | _, _, _, some inner, _, _ => artifactUpdateCheck.on fun _ => inner
    | _, _, _, _, some inner, _ => statusUpdateCheck.on fun _ => inner
    | _, _, _, _, _, some inner => artifactUpdateCheck.on fun _ => inner
    | _, _, _, _, _, _ => eventByKindCheck

/-- Where one scheme is not named, there is a list of them. -/
def pushAuthenticationCheck : Check Json :=
  .only fun json => json.isObject → getOr json "scheme" .null = .null →
    ∃ schemes, getOr json "schemes" (.array []) = .array schemes

def pushNotificationConfigCheck : Check Json :=
  (present "url").andThen <| optional "authentication" .null pushAuthenticationCheck

def checkOf : DecodeType → Check Json
  | .task => taskCheck
  | .status => statusCheck
  | .message => messageCheck
  | .artifact => artifactCheck
  | .part => partCheck
  | .fileContent => fileContentCheck
  | .event => eventCheck
  | .statusUpdateEvent => statusUpdateCheck
  | .artifactUpdateEvent => artifactUpdateCheck
  | .pushNotificationConfig => pushNotificationConfigCheck

/-! ## The decoders as the checks have them -/

theorem requireField_fetches {name : String} : Fetches Fault.raised name fun json => requireField json name := by
  refine ⟨fun json => ?_, fun {json value} found => ?_⟩
  · unfold requireField
    split
    next isObject =>
      cases held : json.get? name with
      | none => exact .refused nofun (fun both => absurd both.2 (by rw [held]; exact Bool.false_ne_true)) isObject
      | some value => exact .ok ⟨isObject, by rw [held]; rfl⟩ isObject
    next other => exact .crashed (fun both => other both.1) other
  · unfold requireField at found
    split at found
    · split at found
      next held => exact held.trans (congrArg some (Except.ok.inj found))
      · cases found
    · cases found

theorem decodeTimestamp_described : timestampCheck.Describes .raised decodeTimestamp := by
  intro json
  unfold decodeTimestamp
  cases json with
  | null => exact .ok trivial trivial
  | string content =>
    show Follows Fault.raised _ (_ = true) True
    dsimp only
    split
    next moment found => exact .ok (by rw [found]; rfl) trivial
    next found => exact .refused nofun (by rw [found]; exact Bool.false_ne_true) trivial
  | _ => exact .crashed id id

theorem decodeBase64_described : bytesCheck.Describes .raised decodeBase64 := by
  intro json
  unfold decodeBase64
  cases json with
  | null => exact .ok trivial trivial
  | string content =>
    show Follows Fault.raised _ (_ = true) True
    dsimp only
    split
    next bytes found => exact .ok (by rw [found]; rfl) trivial
    next found => exact .refused nofun (by rw [found]; exact Bool.false_ne_true) trivial
  | _ => exact .crashed id id

theorem decodeRole_described : roleCheck.Describes .raised decodeRole := by
  intro json
  unfold decodeRole
  split
  next content =>
    cases known : stringToRole content with
    | none =>
      refine .refused nofun ?_ trivial
      rintro ⟨_, same, read⟩
      cases same
      rw [known] at read
      cases read
    | some role => exact .ok ⟨content, rfl, by rw [known]; rfl⟩ trivial
  next other => exact .refused nofun (fun ⟨_, same, _⟩ => other _ same) trivial

theorem decodeState_described : stateCheck.Describes .raised decodeState := by
  intro json
  unfold decodeState
  split
  next content =>
    cases known : stringToState content with
    | none =>
      refine .refused nofun ?_ trivial
      rintro ⟨_, same, read⟩
      cases same
      rw [known] at read
      cases read
    | some state => exact .ok ⟨content, rfl, by rw [known]; rfl⟩ trivial
  next other => exact .refused nofun (fun ⟨_, same, _⟩ => other _ same) trivial

theorem decodeOptional_described {α : Type} {check : Check Json} {decode : Json → Except Fault α}
    (described : check.Describes .raised decode) :
    (nullable check).Describes Fault.raised fun json => decodeOptional json decode := by
  intro json
  cases json with
  | null => exact .ok trivial trivial
  | _ => exact (described _).map some

theorem decodeList_described {α : Type} {check : Check Json} {decode : Json → Except Fault α}
    (described : check.Describes .raised decode) :
    (items check).Describes Fault.raised fun json => decodeList json decode := by
  intro json
  cases json with
  | array values => exact described.mapM values
  | object entries =>
    cases entries with
    | nil => exact .ok rfl rfl
    | cons entry entries => exact .crashed nofun nofun
  | _ => exact .crashed nofun nofun

/-! ## Parts -/

theorem decodeFileContent_described : fileContentCheck.Describes .raised decodeFileContent := fun _ =>
  object_andThen fun _ => (decodeBase64_described _).map _

theorem decodeTextPart_described : textPartCheck.Describes .raised decodeTextPart := fun _ =>
  (requireField_fetches.described _).map _

theorem decodeDataPart_described : dataPartCheck.Describes .raised decodeDataPart := fun _ =>
  (requireField_fetches.described _).map _

theorem decodeFilePart_described : filePartCheck.Describes .raised decodeFilePart := fun _ =>
  requireField_fetches.bind fun _ => (decodeFileContent_described _).map _

theorem decodeFlatFilePart_described : flatFilePartCheck.Describes .raised decodeFlatFilePart := fun _ =>
  (decodeBase64_described _).map _

theorem inferPartType_follows (json : Json) :
    Follows .raised (inferPartType json) ((inferredPartCheck json).reads json) ((inferredPartCheck json).steady json) := by
  unfold inferPartType inferredPartCheck
  split
  · exact decodeTextPart_described json
  split
  · exact decodeDataPart_described json
  split
  · exact decodeFilePart_described json
  split
  · exact decodeFlatFilePart_described json
  · exact .refused nofun id trivial

theorem decodePart_described : partCheck.Describes .raised decodePart := fun json =>
  object_andThen fun _ => by
    unfold Check.choose
    dsimp only
    generalize getOr json "kind" .null = kind
    split
    · exact decodeTextPart_described json
    · exact decodeFilePart_described json
    · exact decodeDataPart_described json
    · exact inferPartType_follows json
    next notText notFile notData notNull =>
      try split
      all_goals first
        | exact absurd rfl notText
        | exact absurd rfl notFile
        | exact absurd rfl notData
        | exact absurd rfl notNull
        | exact .refused (by simp) id trivial

/-! ## Messages, tasks and events -/

theorem parts_described :
    partsCheck.Describes Fault.raised fun json => requireNonEmpty json "parts" >>= fun _ => decodeList json decodePart := by
  intro json
  cases json with
  | array parts =>
    cases parts with
    | nil => exact .refused nofun (fun ⟨_, _, same, _⟩ => nomatch same) ⟨[], rfl, Check.each_steady_nil⟩
    | cons part parts =>
      refine (decodePart_described.mapM (part :: parts)).iff ?_ ?_
      · refine ⟨fun read => ⟨part, parts, rfl, read⟩, ?_⟩
        rintro ⟨_, _, same, read⟩
        cases same
        exact read
      · refine ⟨fun kept => ⟨_, rfl, kept⟩, ?_⟩
        rintro ⟨_, same, kept⟩
        cases same
        exact kept
  | _ => exact .crashed (fun ⟨_, _, same, _⟩ => nomatch same) fun ⟨_, same, _⟩ => nomatch same

theorem decodeMessage_described : messageCheck.Describes .raised decodeMessage := by
  intro json
  refine (requireField_fetches.described _).bind fun messageId _ => ?_
  refine requireField_fetches.andThen decodeRole_described fun role => ?_
  refine requireField_fetches.bind fun parts => ?_
  rw [← bind_assoc]
  exact (parts_described parts).map _

theorem decodeArtifact_described : artifactCheck.Describes .raised decodeArtifact := fun _ =>
  requireField_fetches.bind fun parts => (decodeList_described decodePart_described parts).map _

theorem decodeStatus_described : statusCheck.Describes .raised decodeStatus := fun _ =>
  requireField_fetches.andThen decodeState_described fun _ =>
    (decodeOptional_described decodeMessage_described _).bind fun _ _ => (decodeTimestamp_described _).map _

theorem decodeTask_described : taskCheck.Describes .raised decodeTask := fun _ =>
  (requireField_fetches.described _).bind fun _ _ => requireField_fetches.andThen decodeStatus_described fun _ =>
    (decodeList_described decodeMessage_described _).bind fun _ _ =>
      (decodeList_described decodeArtifact_described _).map _

theorem decodeStatusUpdate_described : statusUpdateCheck.Describes .raised decodeStatusUpdate := fun _ =>
  (requireField_fetches.described _).bind fun _ _ =>
    requireField_fetches.bind fun status => (decodeStatus_described status).map _

theorem decodeArtifactUpdate_described : artifactUpdateCheck.Describes .raised decodeArtifactUpdate := fun _ =>
  (requireField_fetches.described _).bind fun _ _ =>
    requireField_fetches.bind fun artifact => (decodeArtifact_described artifact).map _

theorem inferBareEvent_follows (json : Json) :
    Follows .raised (inferBareEvent json) ((bareEventCheck json).reads json) ((bareEventCheck json).steady json) := by
  unfold inferBareEvent bareEventCheck
  split
  · exact (decodeStatusUpdate_described json).map _
  split
  · exact (decodeArtifactUpdate_described json).map _
  split
  · exact (decodeMessage_described json).map _
  split
  · exact (decodeTask_described json).map _
  · exact .refused nofun id trivial

theorem decodeEventByKind_described : eventByKindCheck.Describes .raised decodeEventByKind := fun json =>
  object_andThen fun _ => by
    unfold Check.choose
    dsimp only
    generalize getOr json "kind" .null = kind
    split
    · exact (decodeStatusUpdate_described json).map _
    · exact (decodeArtifactUpdate_described json).map _
    · exact (decodeTask_described json).map _
    · exact (decodeMessage_described json).map _
    · exact inferBareEvent_follows json
    next notStatus notArtifact notTask notMessage notNull =>
      try split
      all_goals first
        | exact absurd rfl notStatus
        | exact absurd rfl notArtifact
        | exact absurd rfl notTask
        | exact absurd rfl notMessage
        | exact absurd rfl notNull
        | exact .refused (by simp) id trivial

theorem decodeEvent_described : eventCheck.Describes .raised decodeEvent := by
  intro json
  unfold decodeEvent eventCheck Check.choose
  dsimp only
  cases wrapped json "task" with
  | some inner => exact (decodeTask_described inner).map _
  | none =>
  cases wrapped json "message" with
  | some inner => exact (decodeMessage_described inner).map _
  | none =>
  cases wrapped json "statusUpdate" with
  | some inner => exact (decodeStatusUpdate_described inner).map _
  | none =>
  cases wrapped json "artifactUpdate" with
  | some inner => exact (decodeArtifactUpdate_described inner).map _
  | none =>
  cases wrapped json "status_update" with
  | some inner => exact (decodeStatusUpdate_described inner).map _
  | none =>
  cases wrapped json "artifact_update" with
  | some inner => exact (decodeArtifactUpdate_described inner).map _
  | none => exact decodeEventByKind_described json

theorem decodePushAuthentication_described :
    pushAuthenticationCheck.Describes .raised decodePushAuthentication := by
  intro json
  cases json with
  | object entries =>
    unfold decodePushAuthentication pushAuthenticationCheck Check.only
    dsimp only
    generalize getOr (.object entries) "scheme" .null = scheme
    generalize getOr (.object entries) "schemes" (.array []) = schemes
    split
    next several =>
      dsimp only [Bind.bind, Except.bind]
      split <;> exact .ok (fun _ _ => ⟨several, rfl⟩) fun _ _ => ⟨several, rfl⟩
    next notList =>
      exact .crashed (fun all => (all rfl rfl).elim fun _ same => notList _ same)
        fun all => (all rfl rfl).elim fun _ same => notList _ same
    next named _ =>
      dsimp only [Bind.bind, Except.bind]
      split <;> exact .ok (fun _ same => absurd same named) fun _ same => absurd same named
  | _ => refine .ok ?_ ?_ <;> intro isObject <;> cases isObject

theorem decodePushNotificationConfig_described :
    pushNotificationConfigCheck.Describes .raised decodePushNotificationConfig := fun _ =>
  (requireField_fetches.described _).bind fun _ _ => (decodePushAuthentication_described _).map _

theorem decode_described (type : DecodeType) : (checkOf type).Describes Fault.raised fun json => decode json type := by
  intro json
  cases type with
  | task => exact (decodeTask_described json).map _
  | status => exact (decodeStatus_described json).map _
  | message => exact (decodeMessage_described json).map _
  | artifact => exact (decodeArtifact_described json).map _
  | part => exact (decodePart_described json).map _
  | fileContent => exact (decodeFileContent_described json).map _
  | event => exact (decodeEvent_described json).map _
  | statusUpdateEvent => exact (decodeStatusUpdate_described json).map _
  | artifactUpdateEvent => exact (decodeArtifactUpdate_described json).map _
  | pushNotificationConfig => exact (decodePushNotificationConfig_described json).map _

end JSON

/-! ## The agent card -/

namespace AgentCard

open Shape (object_andThen Fetches object present required optional)

/-- A member that is fetched without a check. -/
def fetched (name : String) : Check Json := .only fun json => (json.get? name).isSome

def scopesCheck : Check Json :=
  .only fun json => (∃ scopes, json = .array scopes) ∨ ∃ scopes, json.isObject ∧ json.get? "list" = some (.array scopes)

/-- The map of schemes in a requirement of the wire's shape, if there is one. -/
def schemesOf (requirement : Json) : List Json :=
  match requirement.get? "schemes" with
  | some (.object schemes) => schemes.map Prod.snd
  | _ => []

def requirementCheck : Check Json := object.andThen <| scopesCheck.each.on schemesOf

/-- Only the items of a list are taken apart. -/
def listItems (json : Json) : List Json :=
  match json with
  | .array items => items
  | _ => []

def securityCheck : Check Json := requirementCheck.each.on listItems

def skillCheck : Check Json :=
  (present "id").andThen <| (present "name").andThen <| (present "description").andThen <|
    securityCheck.on fun json => getOr json "securityRequirements" .null

def skillsCheck : Check Json where
  reads json := ∃ skills, json = .array skills ∧ skillCheck.each.reads skills
  steady json := ∀ skills, json = .array skills → skillCheck.each.steady skills

def interfacesCheck : Check Json := object.each.on listItems

def capabilitiesCheck : Check Json :=
  .choose fun
    | .null => .accepted
    | _ => object.andThen <| ((fetched "uri").each.on listItems).on fun json => getOr json "extensions" .null

def providerCheck : Check Json := Shape.nullable object

/-- The location stands under one of two names. -/
def apiKeyCheck : Check Json :=
  (fetched "name").andThen <| .only fun json => (truthy (json.get? "location")).isSome ∨ (json.get? "in").isSome

def schemeCheck : Check Json :=
  .choose fun json =>
    match json.get? "apiKeySecurityScheme", json.get? "httpAuthSecurityScheme", json.get? "oauth2SecurityScheme",
      json.get? "openIdConnectSecurityScheme", json.get? "mtlsSecurityScheme" with
    | some inner, _, _, _, _ => apiKeyCheck.on fun _ => inner
    | _, some inner, _, _, _ => (fetched "scheme").on fun _ => inner
    | _, _, some inner, _, _ => (fetched "flows").on fun _ => inner
    | _, _, _, some inner, _ => (fetched "openIdConnectUrl").on fun _ => inner
    | _, _, _, _, some _ => .accepted
    | _, _, _, _, _ => .crashing

def schemesCheck : Check Json := object.andThen <| schemeCheck.each.on fun json => json.entries.map Prod.snd

def cardCheck : Check Json :=
  (present "name").andThen <| (present "description").andThen <| (present "version").andThen <|
    (required "skills" skillsCheck).andThen <| (optional "supportedInterfaces" (.array []) interfacesCheck).andThen <|
      (optional "capabilities" (.object []) capabilitiesCheck).andThen <|
        (optional "provider" .null providerCheck).andThen <|
          (optional "securitySchemes" (.object []) schemesCheck).andThen <| securityCheck.on fun json =>
            (truthy (json.get? "securityRequirements")).getD (getOr json "security" (.array []))

/-! ### The decoders as the checks have them -/

theorem requireField_fetches {name : String} : Fetches Fault.raised name fun json => requireField json name := by
  refine ⟨fun json => ?_, fun {json value} found => ?_⟩
  · unfold requireField
    split
    next isObject =>
      cases held : json.get? name with
      | none => exact .refused nofun (fun both => absurd both.2 (by rw [held]; exact Bool.false_ne_true)) isObject
      | some value => exact .ok ⟨isObject, by rw [held]; rfl⟩ isObject
    next other => exact .crashed (fun both => other both.1) other
  · unfold requireField at found
    split at found
    · split at found
      next held => exact held.trans (congrArg some (Except.ok.inj found))
      · cases found
    · cases found

theorem fetch_described {name : String} : (fetched name).Describes Fault.raised fun json => fetch json name := by
  intro json
  show Follows Fault.raised (fetch json name) ((json.get? name).isSome = true) ((json.get? name).isSome = true)
  unfold fetch
  cases json.get? name with
  | none => exact .crashed Bool.false_ne_true Bool.false_ne_true
  | some value => exact .ok rfl rfl

/-- Only the values of the entries are decoded. -/
theorem mapNew_described {α β : Type} {check : Check α} {decode : α → Except Fault β}
    (described : check.Describes .raised decode) :
    (check.each.on (List.map Prod.snd)).Describes Fault.raised fun entries : List (String × α) => mapNew entries decode := by
  intro entries
  have entry : (check.on Prod.snd).Describes Fault.raised fun entry : String × α =>
      (do return (entry.1, ← decode entry.2) : Except Fault (String × β)) := fun entry => (described entry.2).map _
  exact (entry.mapM entries).iff Check.each_reads_on Check.each_steady_on

theorem decodeScopes_described : scopesCheck.Describes .raised decodeScopes := by
  intro json
  unfold decodeScopes scopesCheck Check.only
  cases json with
  | array scopes => exact .ok (.inl ⟨scopes, rfl⟩) (.inl ⟨scopes, rfl⟩)
  | object entries =>
    dsimp only
    split
    next scopes held => exact .ok (.inr ⟨scopes, rfl, held⟩) (.inr ⟨scopes, rfl, held⟩)
    next other =>
      have unread : ¬ ((∃ scopes, Json.object entries = .array scopes) ∨ ∃ scopes, (Json.object entries).isObject ∧
          (Json.object entries).get? "list" = some (.array scopes)) := by
        rintro (⟨_, same⟩ | ⟨scopes, _, held⟩)
        · cases same
        · exact other scopes held
      exact .crashed unread unread
  | _ =>
    refine .crashed ?_ ?_ <;>
    · rintro (⟨_, same⟩ | ⟨_, isObject, _⟩)
      · cases same
      · cases isObject

theorem decodeRequirement_described : requirementCheck.Describes .raised decodeRequirement := by
  intro json
  cases json with
  | object entries =>
    refine Shape.within_object rfl ?_
    show Follows Fault.raised _ (scopesCheck.each.reads (schemesOf _)) (scopesCheck.each.steady (schemesOf _))
    unfold decodeRequirement schemesOf
    dsimp only
    generalize (Json.object entries).get? "schemes" = schemes
    split
    next schemes => exact (mapNew_described decodeScopes_described schemes).map _
    next other =>
      try split
      all_goals first
        | exact absurd rfl (other _)
        | exact .ok (List.forall_mem_nil _) Check.each_steady_nil
  | _ => exact .crashed (fun both => by cases both.1) fun both => by cases both.1

theorem decodeCardSecurity_described : securityCheck.Describes .raised decodeCardSecurity := by
  intro json
  cases json with
  | array requirements => exact decodeRequirement_described.mapM requirements
  | _ => exact .ok nofun Check.each_steady_nil

theorem decodeSkill_described : skillCheck.Describes .raised decodeSkill := by
  intro json
  refine (requireField_fetches.described _).bind fun id _ => ?_
  refine (requireField_fetches.described _).bind fun name _ => ?_
  refine (requireField_fetches.described _).bind fun description _ => ?_
  have required : Follows .raised (decodeSkillSecurity json) (securityCheck.reads (getOr json "securityRequirements" .null))
      (securityCheck.steady (getOr json "securityRequirements" .null)) := by
    unfold decodeSkillSecurity getOr
    cases json.get? "securityRequirements" with
    | none => exact .ok nofun Check.each_steady_nil
    | some requirements =>
      cases requirements with
      | null => exact .ok nofun Check.each_steady_nil
      | _ => exact (decodeCardSecurity_described _).map some
  exact required.map _

theorem decodeCardSkills_described : skillsCheck.Describes .raised decodeCardSkills := by
  intro json
  cases json with
  | array skills =>
    refine (decodeSkill_described.mapM skills).iff ?_ ?_
    · refine ⟨fun read => ⟨skills, rfl, read⟩, ?_⟩
      rintro ⟨_, same, read⟩
      cases same
      exact read
    · refine ⟨fun kept _ same => ?_, fun kept => kept skills rfl⟩
      cases same
      exact kept
  | _ => exact .refused nofun (fun ⟨_, same, _⟩ => nomatch same) fun _ same => nomatch same

theorem decodeCardInterfaces_described : interfacesCheck.Describes .raised decodeCardInterfaces := by
  intro json
  have interface : object.Describes .raised decodeInterface := fun json => by
    show Follows Fault.raised (decodeInterface json) (json.isObject = true) (json.isObject = true)
    unfold decodeInterface
    split
    next isObject => exact .ok isObject isObject
    next other => exact .crashed other other
  cases json with
  | array interfaces => exact interface.mapM interfaces
  | _ => exact .ok nofun Check.each_steady_nil

theorem decodeExtensions_follows (json : Json) :
    Follows .raised (decodeExtensions json)
      ((fetched "uri").each.reads (listItems (getOr json "extensions" .null)))
      ((fetched "uri").each.steady (listItems (getOr json "extensions" .null))) := by
  have extension : (fetched "uri").Describes .raised decodeAgentExtension := fun json => (fetch_described json).map _
  unfold decodeExtensions getOr
  cases json.get? "extensions" with
  | none => exact .ok nofun Check.each_steady_nil
  | some extensions =>
    cases extensions with
    | array extensions =>
      cases extensions with
      | nil => exact .ok nofun Check.each_steady_nil
      | cons first rest => exact (extension.mapM (first :: rest)).map some
    | _ => exact .ok nofun Check.each_steady_nil

theorem decodeCardCapabilities_described : capabilitiesCheck.Describes .raised decodeCardCapabilities := by
  intro json
  cases json with
  | null => exact .ok trivial trivial
  | object entries => exact Shape.within_object rfl ((decodeExtensions_follows _).map _)
  | _ => exact .crashed (fun both => nomatch both.1) fun both => nomatch both.1

theorem decodeCardProvider_described : providerCheck.Describes .raised decodeCardProvider := by
  intro json
  cases json with
  | null => exact .ok trivial trivial
  | object entries => exact .ok rfl rfl
  | _ => exact .crashed nofun nofun

theorem apiKey_described :
    apiKeyCheck.Describes Fault.raised fun inner => (do
      let name ← fetch inner "name"
      match truthy (inner.get? "location") with
      | some location => return .apiKey name location
      | none => return .apiKey name (← fetch inner "in") : Except Fault SecurityScheme) := by
  intro inner
  refine (fetch_described inner).bind fun name _ => ?_
  show Follows Fault.raised _ (_ ∨ _) (_ ∨ _)
  cases truthy (inner.get? "location") with
  | some location => exact .ok (.inl rfl) (.inl rfl)
  | none =>
    have or_in : (false = true ∨ (inner.get? "in").isSome) ↔ (inner.get? "in").isSome := by simp
    exact ((fetch_described inner).map _).iff or_in.symm or_in.symm

theorem decodeSecurityScheme_described : schemeCheck.Describes .raised decodeSecurityScheme := by
  intro json
  unfold decodeSecurityScheme schemeCheck Check.choose
  dsimp only
  cases json.get? "apiKeySecurityScheme" with
  | some inner => exact apiKey_described inner
  | none =>
  cases json.get? "httpAuthSecurityScheme" with
  | some inner => exact (fetch_described inner).map _
  | none =>
  cases json.get? "oauth2SecurityScheme" with
  | some inner => exact (fetch_described inner).map _
  | none =>
  cases json.get? "openIdConnectSecurityScheme" with
  | some inner => exact (fetch_described inner).map _
  | none =>
  cases json.get? "mtlsSecurityScheme" with
  | some inner => exact .ok trivial trivial
  | none => exact .crashed id id

theorem decodeCardSecuritySchemes_described : schemesCheck.Describes .raised decodeCardSecuritySchemes := by
  intro json
  cases json with
  | object schemes => exact Shape.within_object rfl (mapNew_described decodeSecurityScheme_described schemes)
  | _ => exact .crashed (fun both => nomatch both.1) fun both => nomatch both.1

theorem decodeAgentCard_described : cardCheck.Describes .raised decodeAgentCard := by
  intro json
  refine (requireField_fetches.described _).bind fun name _ => ?_
  refine (requireField_fetches.described _).bind fun description _ => ?_
  refine (requireField_fetches.described _).bind fun version _ => ?_
  refine requireField_fetches.andThen decodeCardSkills_described fun skills => ?_
  refine (decodeCardInterfaces_described _).bind fun interfaces _ => ?_
  refine (decodeCardCapabilities_described _).bind fun capabilities _ => ?_
  refine (decodeCardProvider_described _).bind fun provider _ => ?_
  refine (decodeCardSecuritySchemes_described _).bind fun schemes _ => ?_
  exact (decodeCardSecurity_described _).map _

end AgentCard

/-! ## The request handler -/

namespace JSONRPC

open JSON (Fault messageCheck pushNotificationConfigCheck)

/-- What a request asks to have decoded is survived, where the request gets that far. -/
def Steady (pushConfigs : Bool) (request : Request) : Prop :=
  if request.method ∈ ["message/send", "message/stream"] then
    messageCheck.steady (getOr request.params "message" .null)
  else
    request.method = "tasks/pushNotificationConfig/set" → pushConfigs →
      pushNotificationConfigCheck.steady (pushSource request.params)

theorem mapped_raises {α : Type} {decoded : Except Fault α} {accept : α → Dispatch} :
    mapped decoded accept ≠ .error .raised ↔ decoded ≠ .error .raised := by
  cases decoded with
  | ok value => exact iff_of_true nofun nofun
  | error fault =>
    cases fault with
    | raised => exact iff_of_false (fun kept => kept rfl) fun kept => kept rfl
    | _ => exact iff_of_true nofun nofun

theorem dispatch_raises {pushConfigs : Bool} {request : Request} :
    dispatch pushConfigs request ≠ .error .raised ↔ Steady pushConfigs request := by
  unfold dispatch Steady
  split
  · exact mapped_raises.trans (JSON.decodeMessage_described _).steady
  split
  next configures =>
    cases pushConfigs with
    | true =>
      have steady := (JSON.decodePushNotificationConfig_described (pushSource request.params)).steady
      exact (mapped_raises.trans steady).trans ⟨fun kept _ _ => kept, fun kept => kept configures rfl⟩
    | false => exact iff_of_true nofun nofun
  next other => exact iff_of_true nofun fun configures => absurd configures other

theorem handle_raises {pushConfigs : Bool} {raw : Json} :
    handle pushConfigs raw ≠ .error .raised ↔
      ∀ request, Request.parse raw = .ok request → Request.validateParams (normalizeMethod request) = .ok () →
        Steady pushConfigs (normalizeMethod request) := by
  unfold handle
  cases parsed : Request.parse raw with
  | error error => exact iff_of_true nofun nofun
  | ok request =>
    dsimp only
    cases valid : Request.validateParams (normalizeMethod request) with
    | error error =>
      refine iff_of_true nofun fun other same passed => ?_
      cases same
      rw [valid] at passed
      cases passed
    | ok _ =>
      refine dispatch_raises.trans ⟨fun kept other same _ => ?_, fun kept => kept request rfl valid⟩
      cases same
      exact kept

end JSONRPC

/-- The decoders raise on no JSON that holds a value of the right type wherever they take one apart
before they refuse it, and on every other. -/
theorem decoders_raise_iff (json : Json) (type : JSON.DecodeType) (pushConfigs : Bool) :
    (JSON.decode json type ≠ .error .raised ↔ (JSON.checkOf type).steady json) ∧
      (AgentCard.decodeAgentCard json ≠ .error .raised ↔ AgentCard.cardCheck.steady json) ∧
        (JSONRPC.handle pushConfigs json ≠ .error .raised ↔
          ∀ request, JSONRPC.Request.parse json = .ok request →
            JSONRPC.Request.validateParams (JSONRPC.normalizeMethod request) = .ok () →
              JSONRPC.Steady pushConfigs (JSONRPC.normalizeMethod request)) :=
  ⟨(JSON.decode_described type json).steady, (AgentCard.decodeAgentCard_described json).steady, JSONRPC.handle_raises⟩

/-- A message whose parts are a map, on its own and in a request; and a card with a scheme of no kind. -/
theorem parts_map_raises :
    let message : Json := .object [("messageId", .string "m1"), ("role", .string "ROLE_USER"), ("parts", .object [])]
    JSON.decode message .message = .error .raised ∧
      JSONRPC.handle false (.object [("jsonrpc", .string "2.0"), ("id", .int 1), ("method", .string "message/send"),
        ("params", .object [("message", message)])]) = .error .raised ∧
      AgentCard.decodeAgentCard (.object [("name", .string "n"), ("description", .string "d"),
        ("version", .string "1"), ("skills", .array []), ("securitySchemes", .object [("s", .object [])])]) =
          .error .raised :=
  ⟨rfl, rfl, rfl⟩

end AshA2A.Protocol
