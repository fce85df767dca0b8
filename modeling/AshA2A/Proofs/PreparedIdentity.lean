import AshA2A.C2.PreparedEffect
import AshA2A.Json.Spelling

/-! When the digest of a prepared effect identifies its payload: the walk over a term against
the members the term has. -/

namespace AshA2A.C2.PreparedEffect

variable (host : Host)

/-! ## Members -/

mutual

/-- Every member of a term that is portable, those of one key side by side. -/
def members : Value → Json
  | .atom name =>
    if name = "nil" then .null
    else if name = "true" then .bool true
    else if name = "false" then .bool false
    else .string (text (utf8 name))
  | .integer value => .int value
  | .float value => .float value
  | .binary bytes => .string (text bytes)
  | .list items | .improper items _ => .array (membersItems items)
  | .map entries => .object (membersEntries entries)
  | .struct module fields =>
    match host.enumerated module fields with
    | .ok pairs => .object pairs
    | .error _ => .object []
  | .closed _ | .tuple _ => .null

def membersItems : List Value → List Json
  | [] => []
  | item :: items => members item :: membersItems items

def membersEntries : List (Value × Value) → List (String × Json)
  | [] => []
  | (key, value) :: entries => ((keyText key).getD "", members value) :: membersEntries entries

end

mutual

/-- What the walk meets that it does not get past, in its order. -/
def faults : Value → List Fault
  | .closed _ | .tuple _ => [.refused .canonicalTypeForbidden]
  | .list items => faultsItems items
  | .improper items _ => faultsItems items ++ [.raised]
  | .map entries => faultsEntries entries
  | .struct module fields =>
    match host.enumerated module fields with
    | .ok _ => []
    | .error fault => [fault]
  | _ => []

def faultsItems : List Value → List Fault
  | [] => []
  | item :: items => faults item ++ faultsItems items

def faultsEntries : List (Value × Value) → List Fault
  | [] => []
  | (key, value) :: entries =>
    (match keyText key with
      | none => [.refused .canonicalKeyTypeForbidden]
      | some _ => faults value) ++ faultsEntries entries

end

/-- The first fault, or else the value. -/
def settled {α : Type} (faults : List Fault) (value : α) : Except Fault α :=
  match faults with
  | [] => .ok value
  | fault :: _ => .error fault

section Settled
variable {α β : Type} {first second : List Fault} {value : α} {next : α → Except Fault β} {result : β}

theorem settled_bind (follows : next value = settled second result) :
    (settled first value >>= next) = settled (first ++ second) result := by
  cases first with
  | nil => exact follows
  | cons fault rest => rfl

theorem settled_map (build : α → β) : (settled first value).map build = settled first (build value) := by
  cases first <;> rfl

theorem settled_ok : settled first value = .ok value ↔ first = [] := by
  cases first <;> simp [settled]

theorem settled_error {fault : Fault} : settled first value = .error fault ↔ first.head? = some fault := by
  cases first <;> simp [settled]

end Settled

/-! ## The walk -/

theorem foldl_put (pairs map : List (String × Json)) :
    pairs.foldl (fun map pair => put map pair.1 pair.2) map =
      map.filter (fun entry => pairs.all fun pair => pair.1 ≠ entry.1) ++ Json.lastEntries pairs := by
  induction pairs generalizing map with
  | nil => simp [Json.lastEntries]
  | cons pair rest ih =>
    rw [List.foldl_cons, ih, put, List.filter_append, List.append_assoc, List.filter_filter]
    congr 1
    · refine List.filter_congr fun entry _ => ?_
      rw [List.all_cons, Bool.and_comm]
      simp [eq_comm]
    · have opposite : rest.all (fun other => other.1 ≠ pair.1) = ! rest.any fun other => other.1 = pair.1 := by
        simp only [List.not_any_eq_all_not, ne_eq, decide_not]
      rw [Json.lastEntries, List.filter_singleton]
      cases repeated : rest.any fun other => other.1 = pair.1 with
      | true => rw [opposite, repeated]; rfl
      | false => rw [opposite, repeated]; rfl

theorem foldl_put_nil (pairs : List (String × Json)) :
    pairs.foldl (fun map pair => put map pair.1 pair.2) [] = Json.lastEntries pairs := foldl_put pairs []

mutual

theorem portable_eq : ∀ value : Value, portable host value = settled (faults host value) (members host value).lastWins
  | .atom name => by
    unfold portable faults members
    repeat' split
    all_goals rfl
  | .integer _ | .float _ | .binary _ | .closed _ | .tuple _ => rfl
  | .list items => by
    rw [portable, portableItems_eq items, settled_map, faults, members, Json.lastWins, Json.lastWinsItems_map]
  | .improper items tail => by
    rw [portable, portableItems_eq items, faults]
    exact settled_bind rfl
  | .map entries => by
    rw [portable, portableEntries_eq [] entries, settled_map, faults, members, Json.lastWins,
      Json.lastWinsEntries_map, foldl_put_nil, ← Json.lastEntries_map]
  | .struct module fields => by
    unfold portable faults members
    cases host.enumerated module fields <;> rfl

theorem portableItems_eq : ∀ items : List Value,
    portableItems host items = settled (faultsItems host items) ((membersItems host items).map Json.lastWins)
  | [] => rfl
  | item :: items => by
    rw [portableItems, portable_eq item, portableItems_eq items, faultsItems, membersItems, List.map_cons]
    refine settled_bind ?_
    cases faultsItems host items <;> rfl

theorem portableEntries_eq : ∀ (map : List (String × Json)) (entries : List (Value × Value)),
    portableEntries host map entries = settled (faultsEntries host entries)
      (((membersEntries host entries).map (Prod.map id Json.lastWins)).foldl (fun map pair => put map pair.1 pair.2) map)
  | map, [] => rfl
  | map, (key, value) :: entries => by
    unfold portableEntries faultsEntries membersEntries
    cases named : keyText key with
    | none => rfl
    | some name =>
      dsimp only
      rw [portable_eq value]
      exact settled_bind (portableEntries_eq (put map name (members host value).lastWins) entries)

end

/-! ## Depth -/

mutual

/-- How many lists and maps are around the innermost value. -/
def depth : Json → Nat
  | .array items => depthItems items
  | .object entries => depthEntries entries
  | _ => 0

def depthItems : List Json → Nat
  | [] => 0
  | item :: items => max (depth item + 1) (depthItems items)

def depthEntries : List (String × Json) → Nat
  | [] => 0
  | (_, value) :: entries => max (depth value + 1) (depthEntries entries)

end

theorem maxDepth_eq : maxDepth = 64 := rfl

mutual

theorem validate_ok (level : Nat) : ∀ json : Json, json.distinct →
    (validate level json = .ok () ↔ level + depth json ≤ maxDepth)
  | .array items, distinct => by
    rw [validate, depth]
    split
    case isTrue deep => exact iff_of_false nofun (by omega)
    case isFalse within => exact validateItems_ok level (by omega) items (Json.distinct_array.mp distinct)
  | .object entries, distinct => by
    obtain ⟨keys, values⟩ := Json.distinct_object.mp distinct
    rw [validate, depth, if_neg (not_not_intro keys)]
    split
    case isTrue deep => exact iff_of_false nofun (by omega)
    case isFalse within => exact validateValues_ok level (by omega) entries values
  | .null, _ | .bool _, _ | .int _, _ | .float _, _ | .string _, _ => by
    unfold validate depth
    split
    case isTrue deep => exact iff_of_false nofun (by omega)
    case isFalse within => exact iff_of_true rfl (by omega)

theorem validateItems_ok (level : Nat) (within : level ≤ maxDepth) : ∀ items : List Json, (∀ item ∈ items, item.distinct) →
    (validateItems (level + 1) items = .ok () ↔ level + depthItems items ≤ maxDepth)
  | [], _ => iff_of_true rfl (by rwa [depthItems])
  | item :: items, distinct => by
    obtain ⟨first, rest⟩ := List.forall_mem_cons.mp distinct
    rw [validateItems, bind_ok_iff, depthItems]
    simp only [validate_ok (level + 1) item first, validateItems_ok level within items rest]
    constructor
    · rintro ⟨_, here, there⟩
      omega
    · intro fits
      exact ⟨(), by omega, by omega⟩

theorem validateValues_ok (level : Nat) (within : level ≤ maxDepth) : ∀ entries : List (String × Json),
    (∀ entry ∈ entries, entry.2.distinct) →
    (validateValues (level + 1) entries = .ok () ↔ level + depthEntries entries ≤ maxDepth)
  | [], _ => iff_of_true rfl (by rwa [depthEntries])
  | (_, value) :: entries, distinct => by
    obtain ⟨first, rest⟩ := List.forall_mem_cons.mp distinct
    rw [validateValues, bind_ok_iff, depthEntries]
    simp only [validate_ok (level + 1) value first, validateValues_ok level within entries rest]
    constructor
    · rintro ⟨_, here, there⟩
      omega
    · intro fits
      exact ⟨(), by omega, by omega⟩

end

/-! ## Digests -/

section Digests
variable {host : Host} {json : Json} {value : String}

theorem encode_ok {bytes : Bytes} (distinct : json.distinct) :
    encode host json = .ok bytes ↔ depth json ≤ maxDepth ∧ host.encode json = some bytes := by
  have shallow : validate 0 json = .ok () ↔ depth json ≤ maxDepth := by rw [validate_ok 0 json distinct, Nat.zero_add]
  rw [← shallow]
  unfold encode normalize
  cases validate 0 json with
  | error refusal => exact iff_of_false (fun same => by cases same) fun both => by cases both.1
  | ok =>
    rw [and_iff_right rfl, Json.lastWins_of_distinct distinct]
    simp only [Bind.bind, Except.bind, Pure.pure, Except.pure]
    cases host.encode json <;> simp

theorem digest_ok (distinct : json.distinct) : digest host json = .ok value ↔
    depth json ≤ maxDepth ∧ ∃ bytes, host.encode json = some bytes ∧ "sha256:" ++ Base16.encode (host.sha256 bytes) = value := by
  unfold digest
  rw [bind_ok_iff]
  simp only [encode_ok distinct, Except.ok.injEq, and_assoc]
  exact exists_and_left

end Digests

/-! ## Proposals -/

structure Proposal where
  principal : Value
  capability : Value
  subject : Value
  payload : Value

/-- What raises where a term has no text. -/
def textFaults (value : Value) : List Fault :=
  match toString host value with
  | .ok _ => []
  | .error fault => [fault]

def name (value : Value) : String :=
  match toString host value with
  | .ok name => name
  | .error _ => ""

namespace Proposal

variable (proposal : Proposal)

def canonicalForm : Except Fault Json :=
  PreparedEffect.canonicalForm host proposal.principal proposal.capability proposal.subject proposal.payload

def build : Except Fault Effect :=
  PreparedEffect.build host proposal.principal proposal.capability proposal.subject proposal.payload

def members : Json :=
  canonical (name host proposal.principal) (name host proposal.capability) (PreparedEffect.members host proposal.subject)
    (PreparedEffect.members host proposal.payload)

def faults : List Fault :=
  PreparedEffect.faults host proposal.subject ++ (PreparedEffect.faults host proposal.payload ++
    (textFaults host proposal.principal ++ (textFaults host proposal.capability ++ [])))

/-- What building an effect keeps of a proposal. -/
structure Kept : Prop where
  answers : proposal.build host ≠ .error .raised
  collision : ¬ (proposal.members host).distinct → ∃ refusal, proposal.build host = .error (.refused refusal)
  whole : ∀ effect, proposal.build host = .ok effect → proposal.canonicalForm host = .ok (proposal.members host)

/-- No struct that cannot be enumerated, tail of a list or term without a text comes before the first
member that is refused; and where none is refused, no map has two keys of one text, or else what is
left is nested too deep or has no canonical text. -/
structure Sound : Prop where
  calm : (proposal.faults host).head? ≠ some .raised
  apart : proposal.faults host = [] → (proposal.members host).distinct ∨
    maxDepth < depth (proposal.members host).lastWins ∨ host.encode (proposal.members host).lastWins = none

end Proposal

theorem toString_eq (value : Value) : toString host value = settled (textFaults host value) (name host value) := by
  unfold textFaults name
  cases toString host value <;> rfl

theorem canonical_lastWins (principal capability : String) (subject payload : Json) :
    (canonical principal capability subject payload).lastWins =
      canonical principal capability subject.lastWins payload.lastWins := by
  have keys : ([("version", Json.int 1), ("principal", .string principal), ("capability", .string capability),
      ("subject", subject), ("payload", payload)].map Prod.fst).Nodup := by simp
  rw [canonical, Json.lastWins, Json.lastWinsEntries_map, Json.lastEntries_of_nodup keys]
  simp [canonical, Json.lastWins]

section Builds
variable {host : Host} {proposal first second : Proposal} {effect other : Effect}

theorem Proposal.canonicalForm_eq :
    proposal.canonicalForm host = settled (proposal.faults host) (proposal.members host).lastWins := by
  unfold canonicalForm PreparedEffect.canonicalForm members
  rw [portable_eq, portable_eq, toString_eq, toString_eq, canonical_lastWins]
  exact settled_bind (settled_bind (settled_bind (settled_bind rfl)))

/-- The three ends of a build. -/
theorem Proposal.build_cases (host : Host) (proposal : Proposal) :
    (∃ fault, (proposal.faults host).head? = some fault ∧ proposal.build host = .error fault) ∨
    (proposal.faults host = [] ∧
      (maxDepth < depth (proposal.members host).lastWins ∨ host.encode (proposal.members host).lastWins = none) ∧
      ∃ refusal, proposal.build host = .error (.refused refusal)) ∨
    (proposal.faults host = [] ∧ depth (proposal.members host).lastWins ≤ maxDepth ∧
      ∃ bytes effect, host.encode (proposal.members host).lastWins = some bytes ∧ proposal.build host = .ok effect ∧
        effect.digest = "sha256:" ++ Base16.encode (host.sha256 bytes)) := by
  have unfolded : proposal.build host = (proposal.canonicalForm host >>= fun form =>
      (PreparedEffect.digest host form).mapError .refused >>= fun digest =>
        .ok ⟨1, proposal.principal, proposal.capability, proposal.subject, proposal.payload, digest⟩) := rfl
  rw [unfolded, canonicalForm_eq]
  cases met : proposal.faults host with
  | cons fault rest => exact .inl ⟨fault, rfl, rfl⟩
  | nil =>
    refine .inr ?_
    have distinct := Json.distinct_lastWins (proposal.members host)
    show (_ ∧ _ ∧ ∃ refusal, ((PreparedEffect.digest host (proposal.members host).lastWins).mapError Fault.refused >>= _) = _) ∨
      (_ ∧ _ ∧ ∃ bytes effect, _ ∧ ((PreparedEffect.digest host (proposal.members host).lastWins).mapError Fault.refused >>= _) =
        _ ∧ _)
    cases digested : PreparedEffect.digest host (proposal.members host).lastWins with
    | ok value =>
      obtain ⟨shallow, bytes, encoded, same⟩ := (digest_ok distinct).mp digested
      exact .inr ⟨rfl, shallow, bytes, _, encoded, rfl, same.symm⟩
    | error refusal =>
      refine .inl ⟨rfl, ?_, refusal, rfl⟩
      refine or_iff_not_imp_left.mpr fun within => ?_
      cases encoded : host.encode (proposal.members host).lastWins with
      | none => rfl
      | some bytes =>
        have answers := (digest_ok distinct).mpr ⟨not_lt.mp within, bytes, encoded, rfl⟩
        cases digested.symm.trans answers

theorem Proposal.build_ok (built : proposal.build host = .ok effect) : proposal.faults host = [] ∧
    depth (proposal.members host).lastWins ≤ maxDepth ∧ ∃ bytes, host.encode (proposal.members host).lastWins = some bytes ∧
      effect.digest = "sha256:" ++ Base16.encode (host.sha256 bytes) := by
  obtain ⟨fault, -, stopped⟩ | ⟨-, -, refusal, stopped⟩ | ⟨calm, shallow, bytes, result, encoded, answers, named⟩ :=
    Proposal.build_cases host proposal
  · cases built.symm.trans stopped
  · cases built.symm.trans stopped
  · cases built.symm.trans answers
    exact ⟨calm, shallow, bytes, encoded, named⟩

/-- What is kept of a proposal is all of it exactly where no map has two keys of one text. -/
theorem Proposal.kept_iff : proposal.Kept host ↔ proposal.Sound host := by
  have ends := Proposal.build_cases host proposal
  constructor
  · intro ⟨answers, collision, whole⟩
    refine ⟨fun raised => answers ?_, fun calm => ?_⟩
    · obtain ⟨fault, met, stopped⟩ | ⟨calm, -⟩ | ⟨calm, -⟩ := ends
      · cases met.symm.trans raised
        exact stopped
      · rw [calm] at raised
        cases raised
      · rw [calm] at raised
        cases raised
    · obtain ⟨fault, met, -⟩ | ⟨-, late, -⟩ | ⟨-, -, bytes, effect, -, built, -⟩ := ends
      · rw [calm] at met
        cases met
      · exact .inr late
      · refine .inl (by_contra fun repeated => ?_)
        obtain ⟨refusal, stopped⟩ := collision repeated
        cases built.symm.trans stopped
  · intro ⟨calm, apart⟩
    obtain ⟨fault, met, stopped⟩ | ⟨-, -, refusal, stopped⟩ | ⟨quiet, shallow, bytes, effect, encoded, built, -⟩ := ends
    · have typed : ∃ refusal, fault = .refused refusal := by
        cases fault with
        | refused refusal => exact ⟨refusal, rfl⟩
        | raised => exact absurd met calm
      obtain ⟨refusal, rfl⟩ := typed
      refine ⟨by rw [stopped]; nofun, fun _ => ⟨refusal, stopped⟩, fun effect built => ?_⟩
      cases built.symm.trans stopped
    · refine ⟨by rw [stopped]; nofun, fun _ => ⟨refusal, stopped⟩, fun effect built => ?_⟩
      cases built.symm.trans stopped
    · have distinct : (proposal.members host).distinct := by
        obtain distinct | deep | none := apart quiet
        · exact distinct
        · exact absurd shallow (not_le.mpr deep)
        · cases encoded.symm.trans none
      refine ⟨by rw [built]; nofun, fun repeated => absurd distinct repeated, fun _ _ => ?_⟩
      rw [canonicalForm_eq, quiet, Json.lastWins_of_distinct distinct]
      rfl

theorem Proposal.Sound.lastWins (sound : proposal.Sound host) (quiet : proposal.faults host = [])
    (kept : depth (proposal.members host).lastWins ≤ maxDepth ∧
      ∃ bytes, host.encode (proposal.members host).lastWins = some bytes) :
    (proposal.members host).lastWins = proposal.members host := by
  obtain ⟨shallow, bytes, encoded⟩ := kept
  obtain distinct | deep | none := sound.apart quiet
  · exact Json.lastWins_of_distinct distinct
  · exact absurd shallow (not_le.mpr deep)
  · cases encoded.symm.trans none

theorem canonical_payload (principal capability : String) (subject payload : Json) :
    (canonical principal capability subject payload).get? "payload" = some payload := by
  simp [canonical]

/-- Equal canonical forms have equal payloads. -/
theorem payload_same (forms : (first.members host).Same (second.members host)) :
    (members host first.payload).Same (members host second.payload) := by
  have found : ∀ proposal : Proposal, (proposal.members host).norm.get? "payload" =
      some (members host proposal.payload).norm := by
    intro proposal
    have read := Json.orderly.get?_value (proposal.members host) "payload"
    rw [Proposal.members, canonical_payload] at read
    exact read
  have same := congrArg (fun json => Json.get? json "payload") forms
  exact Option.some.inj ((found first).symm.trans (same.trans (found second)))

end Builds

/-- What the digest of an effect is to say of two proposals. -/
structure Identifies (first second : Proposal) : Prop where
  left : first.Kept host
  right : second.Kept host
  digest : ∀ effect other, first.build host = .ok effect → second.build host = .ok other → effect.digest = other.digest →
    (members host first.payload).Same (members host second.payload)

theorem digest_identifies_iff (collisionFree : Function.Injective host.sha256)
    (distinguishes : ∀ first second text, host.encode first = some text → host.encode second = some text →
      first.Same second) (first second : Proposal) :
    Identifies host first second ↔ first.Sound host ∧ second.Sound host := by
  constructor
  · intro ⟨left, right, _⟩
    exact ⟨Proposal.kept_iff.mp left, Proposal.kept_iff.mp right⟩
  · intro ⟨left, right⟩
    refine ⟨Proposal.kept_iff.mpr left, Proposal.kept_iff.mpr right, fun effect other built made same => ?_⟩
    obtain ⟨quiet, shallow, bytes, encoded, named⟩ := Proposal.build_ok built
    obtain ⟨quiet', shallow', bytes', encoded', named'⟩ := Proposal.build_ok made
    have hashed : host.sha256 bytes = host.sha256 bytes' := by
      rw [named, named'] at same
      exact Base16.encode_injective (String.append_right_inj _ |>.mp same)
    have texts : bytes = bytes' := collisionFree hashed
    have forms : (first.members host).lastWins.Same (second.members host).lastWins :=
      distinguishes _ _ bytes encoded (texts ▸ encoded')
    rw [left.lastWins quiet ⟨shallow, bytes, encoded⟩, right.lastWins quiet' ⟨shallow', bytes', encoded'⟩] at forms
    exact payload_same forms

/-! ## A key that is there twice -/

/-- A hash that spells out its input. -/
def spelled : Host where
  enumerated _ _ := .error .raised
  chars _ := none
  encode json := some (Json.Spelling.json json)
  sha256 := id

def proposed (payload : Value) : Proposal := ⟨.text "agent", .text "send", .text "mail", payload⟩

def twice : Proposal := proposed (.map [(.atom "a", .integer 1), (.text "a", .integer 2)])

def once : Proposal := proposed (.map [(.text "a", .integer 2)])

/-- The time is a struct. -/
def dated : Proposal := proposed (.map [(.text "at", .struct "DateTime" [("year", .integer 2026)])])

theorem digest_identifies_iff_once : Identifies spelled once once ↔ once.Sound spelled ∧ once.Sound spelled :=
  digest_identifies_iff spelled Function.injective_id
    (fun first second text encoded encoded' => by
      have same : first = second := Json.Spelling.json_injective (Option.some.inj (encoded.trans encoded'.symm))
      rw [same]
      rfl) once once

theorem member_lost : (∃ effect other, twice.build spelled = .ok effect ∧ once.build spelled = .ok other ∧
    effect.digest = other.digest ∧ ¬ (members spelled twice.payload).Same (members spelled once.payload)) ∧
    dated.build spelled = .error .raised := by
  refine ⟨⟨_, _, rfl, rfl, rfl, fun same => ?_⟩, rfl⟩
  have lengths := congrArg (fun json => (Json.entries json).length) same
  simp [members, membersEntries, twice, once, proposed, Json.norm, Json.normEntries, Json.entries] at lengths

end AshA2A.C2.PreparedEffect
