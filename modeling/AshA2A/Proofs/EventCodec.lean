import AshA2A.Json.Spelling
import AshA2A.Proofs.CardCodec
import AshA2A.Protocol.JSON

/-! Stream events over the wire: what is read back of an event, and which events are read at all. -/

namespace AshA2A.Protocol.JSON

open Json (record)
open AgentCard (unlessNil unlessEmpty truthy getOr getOr_record getOr_absent unlessNil_getD unlessEmpty_array)
open Calendar (DateTime)

/-! ## Values of the declared types -/

/-- A map repeats no key at any depth. -/
def isMap (json : Json) : Bool := json.isObject && json.distinct

def isOptionalString (json : Json) : Prop := json = .null ∨ isString json

def isOptionalBool (json : Json) : Prop := json = .null ∨ isBool json

structure FileContent.Typed (file : FileContent) : Prop where
  name : isOptionalString file.name
  mimeType : isOptionalString file.mimeType
  uri : isOptionalString file.uri

def Part.Typed : Part → Prop
  | .text content metadata => isString content ∧ isMap metadata
  | .file content metadata => content.Typed ∧ isMap metadata
  | .data content metadata => isMap content ∧ isMap metadata

structure Message.Typed (message : Message) : Prop where
  messageId : isOptionalString message.messageId
  parts : ∀ part ∈ message.parts, part.Typed
  taskId : isOptionalString message.taskId
  contextId : isOptionalString message.contextId
  referenceTaskIds : isStrings message.referenceTaskIds
  metadata : isMap message.metadata
  extensions : isMap message.extensions

structure Artifact.Typed (artifact : Artifact) : Prop where
  artifactId : isOptionalString artifact.artifactId
  name : isOptionalString artifact.name
  description : isOptionalString artifact.description
  parts : ∀ part ∈ artifact.parts, part.Typed
  extensions : isStrings artifact.extensions
  metadata : isMap artifact.metadata

structure Status.Typed (status : Status) : Prop where
  message : ∀ message ∈ status.message, message.Typed
  timestamp : ∀ timestamp ∈ status.timestamp, timestamp.utc.Valid

structure Task.Typed (task : Task) : Prop where
  id : isString task.id
  contextId : isOptionalString task.contextId
  status : task.status.Typed
  history : ∀ message ∈ task.history, message.Typed
  artifacts : ∀ artifact ∈ task.artifacts, artifact.Typed
  metadata : isMap task.metadata

structure StatusUpdate.Typed (event : StatusUpdate) : Prop where
  taskId : isString event.taskId
  contextId : isOptionalString event.contextId
  status : event.status.Typed
  final : isBool event.final
  metadata : isMap event.metadata

structure ArtifactUpdate.Typed (event : ArtifactUpdate) : Prop where
  taskId : isString event.taskId
  contextId : isOptionalString event.contextId
  artifact : event.artifact.Typed
  append : isOptionalBool event.append
  lastChunk : isOptionalBool event.lastChunk
  metadata : isMap event.metadata

def Event.Typed : Event → Prop
  | .task turn => turn.Typed
  | .message turn => turn.Typed
  | .statusUpdate event => event.Typed
  | .artifactUpdate event => event.Typed

/-! ## What is read back -/

/-- The timestamp in UTC. -/
def Status.settle (status : Status) : Status :=
  { status with timestamp := status.timestamp.map fun timestamp => { utc := timestamp.utc } }

/-- An empty text for a context that is absent. -/
def Task.settle (task : Task) : Task :=
  { task with
    contextId := (truthy task.contextId).getD (.string "")
    status := task.status.settle }

/-- Whether the event is final goes by the state. -/
def StatusUpdate.settle (event : StatusUpdate) : StatusUpdate :=
  { event with
    status := event.status.settle
    final := .bool (event.status.state ∈ finalStates) }

def Event.settle : Event → Event
  | .task turn => .task turn.settle
  | .message turn => .message turn
  | .statusUpdate event => .statusUpdate event.settle
  | .artifactUpdate event => .artifactUpdate event

/-! ## Which values are read -/

/-- A file has bytes or a place. -/
def Part.Complete : Part → Prop
  | .file content _ => content.bytes ≠ none ∨ content.uri ≠ .null
  | _ => True

structure Message.Complete (message : Message) : Prop where
  identified : message.messageId ≠ .null
  spoken : message.parts ≠ []
  parts : ∀ part ∈ message.parts, part.Complete

def Artifact.Complete (artifact : Artifact) : Prop := ∀ part ∈ artifact.parts, part.Complete

structure Status.Complete (status : Status) : Prop where
  message : ∀ message ∈ status.message, message.Complete
  dated : ∀ timestamp ∈ status.timestamp, timestamp.utc.InRange

structure Task.Complete (task : Task) : Prop where
  status : task.status.Complete
  history : ∀ message ∈ task.history, message.Complete
  artifacts : ∀ artifact ∈ task.artifacts, artifact.Complete

def Event.Complete : Event → Prop
  | .task turn => turn.Complete
  | .message turn => turn.Complete
  | .statusUpdate event => event.status.Complete
  | .artifactUpdate event => event.artifact.Complete

/-! ## Members -/

theorem requireField_record {members : List (String × Option Json)} {name : String} {value : Option Json}
    (distinct : (members.map Prod.fst).Nodup) (found : members.lookup name = some value) :
    requireField (record members) name = (value.map Except.ok).getD (.error (.missingField name)) := by
  have object : (record members).isObject := rfl
  rw [requireField, if_pos object, Json.get?_record distinct, found]
  cases value <;> rfl

theorem unlessEmpty_object {value : Json} (object : isMap value) : (unlessEmpty value).getD (.object []) = value := by
  cases value with
  | object entries => cases entries <;> rfl
  | _ => cases object

theorem unlessEmpty_strings {value : Json} (strings : isStrings value) :
    (unlessEmpty value).getD (.array []) = value := by
  refine unlessEmpty_array ?_
  rintro rfl
  cases strings

theorem unlessNil_eq_none {value : Json} : unlessNil value = none ↔ value = .null := by
  cases value <;> simp [unlessNil]

theorem stringToState_stateToString (state : TaskState) : stringToState (stateToString state) = some state := by
  cases state <;> rfl

theorem decodeState_encode (state : TaskState) : decodeState (.string (stateToString state)) = .ok state := by
  rw [decodeState, stringToState_stateToString]
  rfl

theorem decodeRole_encode (role : Role) : decodeRole (.string (roleToString role)) = .ok role := by
  cases role <;> rfl

theorem decodeBase64_encode (bytes : Option Bytes) :
    decodeBase64 ((bytes.map encodeBytes).getD .null) = .ok bytes := by
  cases bytes with
  | none => rfl
  | some bytes => simp only [Option.map_some, Option.getD_some, encodeBytes, decodeBase64, Base64Padded.decode_encode]

/-! ## Results -/

/-- A result that is the value where the condition holds, and an error elsewhere. -/
def Reads {α : Type} (result : Except Fault α) (complete : Prop) (value : α) : Prop :=
  ∀ read, result = .ok read ↔ complete ∧ read = value

section Reads

variable {α β : Type} {result : Except Fault α} {complete : Prop} {value : α}

theorem Reads.ok (given : complete) : Reads (.ok value) complete value := by
  intro read
  rw [Except.ok.injEq, eq_comm]
  exact (and_iff_right given).symm

theorem Reads.error {fault : Fault} (missing : ¬ complete) : Reads (.error fault) complete value := by
  intro read
  exact iff_of_false nofun fun given => missing given.1

theorem Reads.iff {other : Prop} (reads : Reads result complete value) (same : complete ↔ other) :
    Reads result other value := by
  rwa [Reads, ← propext same]

theorem Reads.map (reads : Reads result complete value) (build : α → β) :
    Reads (result.map build) complete (build value) := by
  intro read
  cases given : result with
  | error fault =>
    have missing : ¬ complete := fun holds => nomatch given.symm.trans ((reads value).mpr ⟨holds, rfl⟩)
    exact Reads.error missing read
  | ok inner =>
    obtain ⟨holds, rfl⟩ := (reads inner).mp given
    exact Reads.ok holds read

theorem Reads.bind (reads : Reads result complete value) {next : α → Except Fault β} {then' : Prop} {last : β}
    (follows : Reads (next value) then' last) : Reads (result >>= next) (complete ∧ then') last := by
  intro read
  cases given : result with
  | error fault =>
    have missing : ¬ complete := fun holds => nomatch given.symm.trans ((reads value).mpr ⟨holds, rfl⟩)
    exact Reads.error (fun both => missing both.1) read
  | ok inner =>
    obtain ⟨holds, rfl⟩ := (reads inner).mp given
    exact (follows read).trans (and_congr_left' (and_iff_right holds).symm)

/-- A list is read where each of its items is. -/
theorem Reads.mapM {encode : α → Json} {decode : Json → Except Fault β} {settle : α → β} {fits : α → Prop}
    {items : List α} (each : ∀ item ∈ items, Reads (decode (encode item)) (fits item) (settle item)) :
    Reads ((items.map encode).mapM decode) (∀ item ∈ items, fits item) (items.map settle) := by
  induction items with
  | nil => exact Reads.ok nofun
  | cons item rest ih =>
    obtain ⟨first, others⟩ := List.forall_mem_cons.mp each
    rw [List.map_cons, List.mapM_cons]
    have last : Reads (.ok (settle item :: rest.map settle)) True (settle item :: rest.map settle) := Reads.ok trivial
    refine (first.bind ((ih others).bind last)).iff ?_
    rw [and_true, List.forall_mem_cons]

end Reads

/-! ## Parts -/

theorem part_back {part : Part} (typed : part.Typed) : Reads (decodePart (encodePart part)) part.Complete part := by
  have object : (encodePart part).isObject := by cases part <;> rfl
  cases part with
  | text content metadata =>
    have read : decodePart (encodePart (.text content metadata)) = .ok (.text content metadata) := by
      rw [decodePart, if_pos object]
      simp [encodePart, getOr, Json.get?_record, List.lookup_cons, List.lookup_nil, inferPartType, decodeTextPart,
        requireField_record, metadataOf, unlessEmpty_object typed.2, bind, Except.bind, pure, Except.pure]
    rw [read]
    exact Reads.ok trivial
  | data content metadata =>
    have read : decodePart (encodePart (.data content metadata)) = .ok (.data content metadata) := by
      rw [decodePart, if_pos object]
      simp [encodePart, getOr, Json.get?_record, List.lookup_cons, List.lookup_nil, inferPartType, decodeDataPart,
        requireField_record, metadataOf, unlessEmpty_object typed.2, bind, Except.bind, pure, Except.pure]
    rw [read]
    exact Reads.ok trivial
  | file content metadata =>
    obtain ⟨name, mime, bytes, uri⟩ := content
    have read : decodePart (encodePart (.file ⟨name, mime, bytes, uri⟩ metadata)) =
        if bytes.isSome ∨ (unlessNil uri).isSome then .ok (.file ⟨name, mime, bytes, uri⟩ metadata)
        else .error (.missingField "kind") := by
      rw [decodePart, if_pos object]
      simp [encodePart, Json.get?_record, List.lookup_cons, List.lookup_nil, inferPartType, decodeFlatFilePart, getOr,
        metadataOf,
        unlessEmpty_object typed.2, unlessNil_getD, decodeBase64_encode, bind, Except.bind, pure, Except.pure]
    rw [read]
    split
    next given => exact Reads.ok (by simpa [Part.Complete, Option.isSome_iff_ne_none, unlessNil_eq_none] using given)
    next given => exact Reads.error (by simpa [Part.Complete, Option.isSome_iff_ne_none, unlessNil_eq_none] using given)

theorem parts_back {parts : List Part} (typed : ∀ part ∈ parts, part.Typed) :
    Reads ((parts.map encodePart).mapM decodePart) (∀ part ∈ parts, part.Complete) parts := by
  have each : ∀ part ∈ parts, Reads (decodePart (encodePart part)) part.Complete (id part) := fun part member =>
    part_back (typed part member)
  simpa using Reads.mapM each

/-! ## Messages and artifacts -/

theorem requireNonEmpty_array {items : List Json} {name : String} (given : items ≠ []) :
    requireNonEmpty (.array items) name = .ok () := by
  cases items with
  | nil => exact absurd rfl given
  | cons item rest => rfl

theorem unlessNil_of_ne {value : Json} (given : value ≠ .null) : unlessNil value = some value := by
  cases value <;> first | rfl | exact absurd rfl given

/-- The parts alone decide where the message has a name and something to say. -/
theorem decodeMessage_encode {message : Message} (typed : message.Typed) (named : message.messageId ≠ .null)
    (spoken : message.parts ≠ []) : decodeMessage (encodeMessage message) =
      ((message.parts.map encodePart).mapM decodePart).map fun parts => { message with parts } := by
  have some_parts : message.parts.map encodePart ≠ [] := fun none_left => spoken (List.map_eq_nil_iff.mp none_left)
  unfold decodeMessage encodeMessage
  generalize message.parts.map encodePart = texts at some_parts ⊢
  simp [requireField_record, unlessNil_of_ne named, decodeRole_encode, requireNonEmpty_array some_parts, decodeList,
    getOr, Json.get?_record, metadataOf, List.lookup_cons, unlessEmpty_object typed.metadata,
    unlessEmpty_object typed.extensions, unlessEmpty_strings typed.referenceTaskIds, unlessNil_getD, bind, Except.bind,
    pure, Except.pure]
  cases texts.mapM decodePart <;> rfl

theorem message_back {message : Message} (typed : message.Typed) :
    Reads (decodeMessage (encodeMessage message)) message.Complete message := by
  by_cases unnamed : message.messageId = .null
  · have read : decodeMessage (encodeMessage message) = .error (.missingField "messageId") := by
      simp [decodeMessage, encodeMessage, requireField_record, List.lookup_cons, unnamed, unlessNil, bind, Except.bind]
    rw [read]
    exact Reads.error fun complete => complete.identified unnamed
  · by_cases silent : message.parts = []
    · have read : decodeMessage (encodeMessage message) = .error (.emptyField "parts") := by
        simp [decodeMessage, encodeMessage, requireField_record, List.lookup_cons, unlessNil_of_ne unnamed, silent,
          decodeRole_encode, requireNonEmpty, bind, Except.bind]
      rw [read]
      exact Reads.error fun complete => complete.spoken silent
    · rw [decodeMessage_encode typed unnamed silent]
      refine ((parts_back typed.parts).map fun parts => { message with parts }).iff ?_
      exact ⟨fun parts => ⟨unnamed, silent, parts⟩, fun complete => complete.parts⟩

theorem artifact_back {artifact : Artifact} (typed : artifact.Typed) :
    Reads (decodeArtifact (encodeArtifact artifact)) artifact.Complete artifact := by
  have whole : decodeArtifact (encodeArtifact artifact) =
      ((artifact.parts.map encodePart).mapM decodePart).map fun parts => { artifact with parts } := by
    unfold decodeArtifact encodeArtifact
    generalize artifact.parts.map encodePart = texts
    simp [requireField_record, decodeList, getOr, Json.get?_record, metadataOf, List.lookup_cons,
      unlessEmpty_object typed.metadata, unlessEmpty_strings typed.extensions, unlessNil_getD, bind, Except.bind,
      pure, Except.pure]
    cases texts.mapM decodePart <;> rfl
  rw [whole]
  exact (parts_back typed.parts).map fun parts => { artifact with parts }

/-! ## Statuses and tasks -/

theorem timestamp_back {timestamp : Option DateTime} (valid : ∀ given ∈ timestamp, given.utc.Valid) :
    Reads (decodeTimestamp ((timestamp.map encodeTimestamp).getD .null)) (∀ given ∈ timestamp, given.utc.InRange)
      (timestamp.map fun given => { utc := given.utc }) := by
  cases timestamp with
  | none => exact Reads.ok nofun
  | some timestamp =>
    have valid := valid timestamp rfl
    simp only [Option.map_some, Option.getD_some, encodeTimestamp, decodeTimestamp]
    by_cases inRange : timestamp.utc.InRange
    · rw [Calendar.fromIso8601_toIso8601 valid inRange]
      exact Reads.ok fun _ given => (Option.mem_some_iff.mp given) ▸ inRange
    · rw [Calendar.fromIso8601_outOfRange inRange]
      exact Reads.error fun given => inRange (given timestamp rfl)

theorem optional_back {message : Option Message} (typed : ∀ given ∈ message, given.Typed) :
    Reads (decodeOptional ((message.map encodeMessage).getD .null) decodeMessage) (∀ given ∈ message, given.Complete)
      message := by
  cases message with
  | none => exact Reads.ok nofun
  | some message =>
    have read := (message_back (typed message rfl)).map some
    exact read.iff ⟨fun complete _ given => (Option.mem_some_iff.mp given) ▸ complete, fun each => each message rfl⟩

theorem status_back {status : Status} (typed : status.Typed) :
    Reads (decodeStatus (encodeStatus status)) status.Complete status.settle := by
  have whole : decodeStatus (encodeStatus status) = (do
      let message ← decodeOptional ((status.message.map encodeMessage).getD .null) decodeMessage
      let timestamp ← decodeTimestamp ((status.timestamp.map encodeTimestamp).getD .null)
      return ⟨status.state, message, timestamp⟩) := by
    simp [decodeStatus, encodeStatus, requireField_record, List.lookup_cons, decodeState_encode, getOr,
      Json.get?_record, bind, Except.bind]
  have last : Reads (.ok status.settle) True status.settle := Reads.ok trivial
  rw [whole]
  refine ((optional_back typed.message).bind ((timestamp_back typed.timestamp).bind last)).iff ?_
  exact ⟨fun kept => ⟨kept.1, kept.2.1⟩, fun complete => ⟨complete.message, complete.dated, trivial⟩⟩

/-- A list that is left out where it is empty. -/
theorem list_back {α : Type} {encode : α → Json} {decode : Json → Except Fault α} {fits : α → Prop} {items : List α}
    (each : ∀ item ∈ items, Reads (decode (encode item)) (fits item) item) :
    Reads (decodeList ((unlessEmpty (.array (items.map encode))).getD (.array [])) decode) (∀ item ∈ items, fits item)
      items := by
  have whole : (unlessEmpty (.array (items.map encode))).getD (.array []) = .array (items.map encode) := by
    cases items <;> rfl
  have read : Reads ((items.map encode).mapM decode) (∀ item ∈ items, fits item) (items.map id) := Reads.mapM each
  rw [List.map_id] at read
  rw [whole]
  exact read

theorem task_back {task : Task} (typed : task.Typed) :
    Reads (decodeTask (encodeTask task)) task.Complete task.settle := by
  have history := list_back fun message member => message_back (typed.history message member)
  have artifacts := list_back fun artifact member => artifact_back (typed.artifacts artifact member)
  have whole : decodeTask (encodeTask task) = (do
      let status ← decodeStatus (encodeStatus task.status)
      let history ← decodeList ((unlessEmpty (.array (task.history.map encodeMessage))).getD (.array [])) decodeMessage
      let artifacts ←
        decodeList ((unlessEmpty (.array (task.artifacts.map encodeArtifact))).getD (.array [])) decodeArtifact
      return ⟨task.id, (truthy task.contextId).getD (.string ""), status, history, artifacts, task.metadata⟩) := by
    simp [decodeTask, encodeTask, requireField_record, List.lookup_cons, getOr, Json.get?_record, metadataOf,
      unlessEmpty_object typed.metadata, bind, Except.bind]
  have last : Reads (.ok task.settle) True task.settle := Reads.ok trivial
  rw [whole]
  refine ((status_back typed.status).bind (history.bind (artifacts.bind last))).iff ?_
  exact ⟨fun kept => ⟨kept.1, kept.2.1, kept.2.2.1⟩,
    fun complete => ⟨complete.status, complete.history, complete.artifacts, trivial⟩⟩

/-! ## Events -/

theorem statusUpdate_back {event : StatusUpdate} (typed : event.Typed) :
    Reads (decodeStatusUpdate (encodeStatusUpdate event)) event.status.Complete event.settle := by
  have whole : decodeStatusUpdate (encodeStatusUpdate event) = (decodeStatus (encodeStatus event.status)).map
      fun status => ⟨event.taskId, event.contextId, status, .bool (status.state ∈ finalStates), event.metadata⟩ := by
    simp [decodeStatusUpdate, encodeStatusUpdate, requireField_record, List.lookup_cons, List.lookup_nil, getOr,
      Json.get?_record,
      metadataOf, unlessEmpty_object typed.metadata, unlessNil_getD, bind, Except.bind, pure, Except.pure]
    cases decodeStatus (encodeStatus event.status) <;> rfl
  rw [whole]
  exact (status_back typed.status).map _

theorem artifactUpdate_back {event : ArtifactUpdate} (typed : event.Typed) :
    Reads (decodeArtifactUpdate (encodeArtifactUpdate event)) event.artifact.Complete event := by
  have whole : decodeArtifactUpdate (encodeArtifactUpdate event) =
      (decodeArtifact (encodeArtifact event.artifact)).map fun artifact => { event with artifact } := by
    simp [decodeArtifactUpdate, encodeArtifactUpdate, requireField_record, List.lookup_cons, getOr, Json.get?_record,
      metadataOf, unlessEmpty_object typed.metadata, unlessNil_getD, bind, Except.bind, pure, Except.pure]
    cases decodeArtifact (encodeArtifact event.artifact) <;> rfl
  rw [whole]
  exact (artifact_back typed.artifact).map fun artifact => { event with artifact }

theorem event_back {event : Event} (typed : event.Typed) :
    Reads (decodeEvent (encodeStreamResponse event)) event.Complete event.settle := by
  cases event with
  | task turn => exact (task_back typed).map Event.task
  | message turn => exact (message_back typed).map Event.message
  | statusUpdate event => exact (statusUpdate_back typed).map Event.statusUpdate
  | artifactUpdate event => exact (artifactUpdate_back typed).map Event.artifactUpdate

/-! ## The text of an event -/

section Distinct

theorem distinct_of_isMap {json : Json} (map : isMap json) : json.distinct := by
  simp only [isMap, Bool.and_eq_true] at map
  exact map.2

theorem distinct_of_optional {json : Json} (optional : isOptionalString json) : json.distinct := by
  obtain rfl | string := optional
  · rfl
  · cases json <;> first | rfl | cases string

theorem distinct_of_optionalBool {json : Json} (optional : isOptionalBool json) : json.distinct := by
  obtain rfl | bool := optional
  · rfl
  · cases json <;> first | rfl | cases bool

theorem distinct_of_isString {json : Json} (string : isString json) : json.distinct :=
  distinct_of_optional (.inr string)

theorem distinct_of_isStrings {json : Json} (strings : isStrings json) : json.distinct := by
  cases json with
  | array items =>
    exact Json.distinct_array.mpr fun item member => distinct_of_isString (List.all_eq_true.mp strings item member)
  | _ => cases strings

theorem distinct_unlessNil {json : Json} (given : json.distinct) : ∀ value ∈ unlessNil json, value.distinct := by
  cases json <;> simp_all [unlessNil]

theorem distinct_unlessEmpty {json : Json} (given : json.distinct) : ∀ value ∈ unlessEmpty json, value.distinct := by
  unfold unlessEmpty
  split
  · exact nofun
  · exact nofun
  · exact fun value member => (Option.mem_some_iff.mp member) ▸ given

theorem optional_distinct {json : Json} (optional : isOptionalString json) : ∀ value ∈ unlessNil json, value.distinct :=
  distinct_unlessNil (distinct_of_optional optional)

theorem map_distinct {json : Json} (map : isMap json) : ∀ value ∈ unlessEmpty json, value.distinct :=
  distinct_unlessEmpty (distinct_of_isMap map)

theorem strings_distinct {json : Json} (strings : isStrings json) : ∀ value ∈ unlessEmpty json, value.distinct :=
  distinct_unlessEmpty (distinct_of_isStrings strings)

theorem some_distinct {json : Json} (given : json.distinct) : ∀ value ∈ some json, value.distinct :=
  fun _ member => (Option.mem_some_iff.mp member) ▸ given

theorem distinct_array_map {α : Type} {encode : α → Json} {items : List α}
    (each : ∀ item ∈ items, (encode item).distinct) : (Json.array (items.map encode)).distinct := by
  refine Json.distinct_array.mpr fun item member => ?_
  obtain ⟨value, given, rfl⟩ := List.mem_map.mp member
  exact each value given

theorem distinct_map {α : Type} {encode : α → Json} {value : Option α} (each : ∀ inner ∈ value, (encode inner).distinct) :
    ∀ json ∈ value.map encode, json.distinct := by
  intro json member
  obtain ⟨inner, given, rfl⟩ := Option.map_eq_some_iff.mp member
  exact each inner given

theorem part_distinct {part : Part} (typed : part.Typed) : (encodePart part).distinct := by
  cases part with
  | text content metadata =>
    refine Json.distinct_record (by simp) ?_
    simp only [List.forall_mem_cons]
    exact ⟨some_distinct (distinct_of_isString typed.1), map_distinct typed.2, nofun⟩
  | data content metadata =>
    refine Json.distinct_record (by simp) ?_
    simp only [List.forall_mem_cons]
    exact ⟨some_distinct (distinct_of_isMap typed.1), map_distinct typed.2, nofun⟩
  | file content metadata =>
    obtain ⟨file, map⟩ := typed
    refine Json.distinct_record (by simp) ?_
    simp only [List.forall_mem_cons]
    exact ⟨optional_distinct file.name, optional_distinct file.mimeType, optional_distinct file.uri,
      distinct_map fun _ _ => rfl, map_distinct map, nofun⟩

theorem parts_distinct {parts : List Part} (typed : ∀ part ∈ parts, part.Typed) :
    ∀ value ∈ some (Json.array (parts.map encodePart)), value.distinct :=
  some_distinct (distinct_array_map fun part member => part_distinct (typed part member))

theorem message_distinct {message : Message} (typed : message.Typed) : (encodeMessage message).distinct := by
  refine Json.distinct_record (by simp) ?_
  simp only [List.forall_mem_cons]
  exact ⟨some_distinct rfl, parts_distinct typed.parts, optional_distinct typed.messageId,
    optional_distinct typed.taskId, optional_distinct typed.contextId, strings_distinct typed.referenceTaskIds,
    map_distinct typed.metadata, map_distinct typed.extensions, nofun⟩

theorem artifact_distinct {artifact : Artifact} (typed : artifact.Typed) : (encodeArtifact artifact).distinct := by
  refine Json.distinct_record (by simp) ?_
  simp only [List.forall_mem_cons]
  exact ⟨parts_distinct typed.parts, optional_distinct typed.artifactId, optional_distinct typed.name,
    optional_distinct typed.description, strings_distinct typed.extensions, map_distinct typed.metadata, nofun⟩

theorem status_distinct {status : Status} (typed : status.Typed) : (encodeStatus status).distinct := by
  refine Json.distinct_record (by simp) ?_
  simp only [List.forall_mem_cons]
  exact ⟨some_distinct rfl, distinct_map fun message given => message_distinct (typed.message message given),
    distinct_map fun _ _ => rfl, nofun⟩

theorem context_distinct {json : Json} (optional : isOptionalString json) :
    ((truthy json).getD (.string "")).distinct := by
  obtain rfl | string := optional
  · rfl
  · cases json <;> first | rfl | cases string

theorem task_distinct {task : Task} (typed : task.Typed) : (encodeTask task).distinct := by
  refine Json.distinct_record (by simp) ?_
  simp only [List.forall_mem_cons]
  exact ⟨some_distinct (distinct_of_isString typed.id), some_distinct (context_distinct typed.contextId),
    some_distinct (status_distinct typed.status),
    distinct_unlessEmpty (distinct_array_map fun message given => message_distinct (typed.history message given)),
    distinct_unlessEmpty (distinct_array_map fun artifact given => artifact_distinct (typed.artifacts artifact given)),
    map_distinct typed.metadata, nofun⟩

theorem statusUpdate_distinct {event : StatusUpdate} (typed : event.Typed) : (encodeStatusUpdate event).distinct := by
  refine Json.distinct_record (by simp) ?_
  simp only [List.forall_mem_cons]
  exact ⟨some_distinct (distinct_of_isString typed.taskId), some_distinct (status_distinct typed.status),
    optional_distinct typed.contextId, map_distinct typed.metadata, nofun⟩

theorem artifactUpdate_distinct {event : ArtifactUpdate} (typed : event.Typed) :
    (encodeArtifactUpdate event).distinct := by
  refine Json.distinct_record (by simp) ?_
  simp only [List.forall_mem_cons]
  exact ⟨some_distinct (distinct_of_isString typed.taskId), some_distinct (artifact_distinct typed.artifact),
    optional_distinct typed.contextId, distinct_unlessNil (distinct_of_optionalBool typed.append),
    distinct_unlessNil (distinct_of_optionalBool typed.lastChunk), map_distinct typed.metadata, nofun⟩

theorem event_distinct {event : Event} (typed : event.Typed) : (encodeStreamResponse event).distinct := by
  have single : ∀ {key : String} {json : Json}, json.distinct → (Json.object [(key, json)]).distinct := fun given =>
    Json.distinct_object.mpr ⟨List.nodup_singleton _, List.forall_mem_singleton.mpr given⟩
  cases event with
  | task turn => exact single (task_distinct typed)
  | message turn => exact single (message_distinct typed)
  | statusUpdate event => exact single (statusUpdate_distinct typed)
  | artifactUpdate event => exact single (artifactUpdate_distinct typed)

end Distinct

/-! ## Over the wire -/

/-- The event that the text of another one is read as. -/
def Delivered (library : Json.Library) (sent received : Event) : Prop :=
  ∃ bytes json, library.encode (encodeStreamResponse sent) = some bytes ∧ library.plain bytes = some json ∧
    decodeEvent json = .ok received

theorem delivered_iff {library : Json.Library} (faithful : library.Faithful) {sent : Event} (typed : sent.Typed)
    {received : Event} : Delivered library sent received ↔ decodeEvent (encodeStreamResponse sent) = .ok received := by
  have distinct := event_distinct typed
  obtain ⟨bytes, written, plain⟩ := faithful.plain distinct
  constructor
  · rintro ⟨other, json, written', plain', decoded⟩
    cases written.symm.trans written'
    cases plain.symm.trans plain'
    exact decoded
  · exact fun decoded => ⟨bytes, _, written, plain, decoded⟩

/-- Just the complete events are read back, with the context of a task, the zone of a timestamp
and the end of a stream as the wire has them. -/
theorem event_delivered {library : Json.Library} (faithful : library.Faithful) {sent : Event} (typed : sent.Typed)
    (received : Event) : Delivered library sent received ↔ sent.Complete ∧ received = sent.settle :=
  (delivered_iff faithful typed).trans (event_back typed received)

def sampleFile : Part := .file { name := .string "a.bin", bytes := some [0, 255] } (.object [])

def sampleMessage : Message := { messageId := .string "msg-1", role := .agent, parts := [sampleFile] }

def sampleMoment : Calendar.Moment := ⟨2024, 2, 29, 23, 5, 7, 120000, 2⟩

/-- The clock of the zone is an hour ahead. -/
def sampleTask : Task where
  id := .string "tsk-1"
  status := ⟨.completed, some sampleMessage, some ⟨sampleMoment, "Europe/Vienna", "CET", 3600, 0⟩⟩
  history := [sampleMessage]
  artifacts := [{ parts := [.data (.object [("n", .int 1)]) (.object [])] }]

theorem sampleMessage_typed : sampleMessage.Typed where
  messageId := .inr rfl
  parts := by
    refine List.forall_mem_singleton.mpr ⟨⟨.inr rfl, .inl rfl, .inl rfl⟩, rfl⟩
  taskId := .inl rfl
  contextId := .inl rfl
  referenceTaskIds := rfl
  metadata := rfl
  extensions := rfl

theorem sampleTask_typed : sampleTask.Typed where
  id := rfl
  contextId := .inl rfl
  status := by
    refine ⟨fun _ given => (Option.mem_some_iff.mp given) ▸ sampleMessage_typed, fun _ given => ?_⟩
    cases Option.mem_some_iff.mp given
    exact ⟨by decide, by decide, by decide, by decide, by decide, by decide, by decide, by decide⟩
  history := List.forall_mem_singleton.mpr sampleMessage_typed
  artifacts := List.forall_mem_singleton.mpr ⟨.inl rfl, .inl rfl, .inl rfl,
    List.forall_mem_singleton.mpr ⟨rfl, rfl⟩, rfl, rfl⟩
  metadata := rfl

theorem sampleTask_complete : sampleTask.Complete := by
  have message : sampleMessage.Complete :=
    ⟨nofun, nofun, List.forall_mem_singleton.mpr (.inl nofun)⟩
  refine ⟨⟨fun _ given => (Option.mem_some_iff.mp given) ▸ message, fun _ given => ?_⟩,
    List.forall_mem_singleton.mpr message, List.forall_mem_singleton.mpr (List.forall_mem_singleton.mpr trivial)⟩
  cases Option.mem_some_iff.mp given
  decide

theorem task_delivered : Delivered Json.Spelling.library (.task sampleTask) (.task sampleTask.settle) :=
  (event_delivered Json.Spelling.library_faithful (show (Event.task sampleTask).Typed from sampleTask_typed) _).mpr
    ⟨sampleTask_complete, rfl⟩

/-- As `StatusUpdate.new/3` makes it where no option is given. -/
def sampleUpdate : StatusUpdate := { taskId := .string "tsk-1", status := ⟨.completed, none, none⟩ }

theorem sampleUpdate_typed : sampleUpdate.Typed := ⟨rfl, .inl rfl, ⟨nofun, nofun⟩, rfl, rfl⟩

def silentMessage : Message := { messageId := .string "msg-1", role := .user, parts := [] }

theorem silentMessage_typed : silentMessage.Typed := ⟨.inr rfl, nofun, .inl rfl, .inl rfl, rfl, rfl, rfl⟩

/-- A status update comes back as final that was not, and a message that says nothing is written
but not read. -/
theorem event_altered_or_refused :
    (sampleUpdate.Typed ∧ ∃ received, Delivered Json.Spelling.library (.statusUpdate sampleUpdate) (.statusUpdate received) ∧
      received.final ≠ sampleUpdate.final) ∧
    silentMessage.Typed ∧ (Json.Spelling.library.encode (encodeStreamResponse (.message silentMessage))).isSome ∧
      ∀ received, ¬ Delivered Json.Spelling.library (.message silentMessage) received := by
  have typed : (Event.statusUpdate sampleUpdate).Typed := sampleUpdate_typed
  have silent : (Event.message silentMessage).Typed := silentMessage_typed
  refine ⟨⟨sampleUpdate_typed, sampleUpdate.settle, ?_, nofun⟩, silentMessage_typed, rfl, fun received delivered => ?_⟩
  · refine (delivered_iff Json.Spelling.library_faithful typed).mpr ((event_back typed _).mpr ⟨⟨nofun, nofun⟩, rfl⟩)
  · have complete : silentMessage.Complete :=
      ((event_back silent received).mp ((delivered_iff Json.Spelling.library_faithful silent).mp delivered)).1
    exact complete.spoken rfl

end AshA2A.Protocol.JSON
