import AshA2A.Receipt.Binding
import Mathlib.Data.List.Induction

/-! What a binding that verifies says, and how it survives a transition. -/

namespace AshA2A.Receipt

variable {crypto : Crypto} {key : Option Key} {receipt other prior next : Receipt}
  {binding : Binding} {root : Link} {rest : List Link} {stage : Stage}

def tag : Option Key → String
  | none => "sha256:"
  | some _ => "hmac-sha256:"

/-- The binding was written under the key configured now. -/
structure Postured (crypto : Crypto) (key : Option Key) (binding : Binding) : Prop where
  algorithm : binding.algorithm = algorithm key
  keyed : binding.keyed = key.isSome
  keyId : binding.keyId = key.map (Receipt.keyId crypto)
  tagged : ∀ link ∈ binding.links, startsWith link.digest (tag key)

/-- The last link of the chain `root :: rest`. -/
def lastLink (root : Link) (rest : List Link) : Link := rest.getLastD root

@[simp] theorem lastLink_nil (root : Link) : lastLink root [] = root := rfl

@[simp] theorem lastLink_append (root last : Link) (rest : List Link) :
    lastLink root (rest ++ [last]) = last := by
  simp [lastLink]

theorem lastLink_mem (root : Link) (rest : List Link) : lastLink root rest ∈ root :: rest := by
  cases rest using List.reverseRecOn with
  | nil => simp
  | append_singleton rest last => simp

/-- Everything `check` compares, gathered for a chain `root :: rest`. -/
structure Verifies (crypto : Crypto) (key : Option Key) (receipt : Receipt) (binding : Binding)
    (root : Link) (rest : List Link) : Prop where
  bound : receipt.binding = some binding
  shape : binding.links = root :: rest
  version : binding.version = version
  keys : binding.fieldsOk
  listed : binding.linksOk
  posture : Postured crypto key binding
  fields : ∀ field ∈ Receipt.fields, binding.fields.lookup field =
    (fieldDigests crypto receipt (lastLink root rest).stage).lookup field
  head : (link crypto key (lastLink root rest).stage (lastLink root rest).predecessor
    (fieldDigests crypto receipt (lastLink root rest).stage)).digest = (lastLink root rest).digest
  anchored : root.stage = .prepared
  prepared : (link crypto key .prepared root.predecessor (fieldDigests crypto receipt .prepared)).digest =
    root.digest
  follows : follows root rest
  result : (lastLink root rest).stage = .prepared → receipt.status = .pending

theorem keyedClaim_iff : keyedClaim binding = .ok () ↔
    binding.algorithm = (if binding.keyed then "hmac-sha256" else "sha256") ∧
      binding.keyId.isSome = binding.keyed ∧
      ∀ link ∈ binding.links,
        startsWith link.digest (if binding.keyed then "hmac-sha256:" else "sha256:") := by
  unfold keyedClaim refuse
  cases binding.keyed <;> simp

theorem posture_iff : keyedClaim binding = .ok () ∧ keyPosture crypto binding key = .ok () ↔
    Postured crypto key binding := by
  rw [keyedClaim_iff]
  constructor
  · rintro ⟨⟨algorithm, named, tagged⟩, posture⟩
    cases keyed : binding.keyed with
    | false =>
      cases key with
      | none => exact ⟨by simpa [keyed, Receipt.algorithm] using algorithm, keyed, by simpa [keyed] using named,
          by simpa [keyed, tag] using tagged⟩
      | some key => simp [keyPosture, keyed, refuse] at posture
    | true =>
      cases key with
      | none => simp [keyPosture, keyed, refuse] at posture
      | some key =>
        have same : some (keyId crypto key) = binding.keyId := by
          simpa [keyPosture, keyed, refuse] using posture
        exact ⟨by simpa [keyed, Receipt.algorithm] using algorithm, keyed, same.symm, by simpa [keyed, tag] using tagged⟩
  · rintro ⟨algorithm, keyed, named, tagged⟩
    cases key <;> simp_all [keyPosture, Receipt.algorithm, tag]

theorem fieldsMatch_iff {bound current : List (Field × String)} : fieldsMatch bound current = .ok () ↔
    ∀ field ∈ fields, bound.lookup field = current.lookup field := by
  unfold fieldsMatch
  split
  next none =>
    rw [List.filter_eq_nil_iff] at none
    simpa using none
  next some =>
    constructor
    · intro impossible
      cases impossible
    · intro same
      refine absurd (List.filter_eq_nil_iff.mpr ?_) some
      simpa using same

theorem headMatches_iff {head : Link} {current : List (Field × String)} :
    headMatches crypto head current key = .ok () ↔
      (link crypto key head.stage head.predecessor current).digest = head.digest := by
  unfold headMatches refuse
  split <;> simp_all

theorem chainIntact_iff : chainIntact crypto root rest receipt key = .ok () ↔
    root.stage = .prepared ∧
      (link crypto key .prepared root.predecessor (fieldDigests crypto receipt .prepared)).digest =
        root.digest ∧ follows root rest := by
  simp only [chainIntact, refuse]
  split_ifs <;> simp_all

theorem resultBound_iff {head : Link} : resultBound receipt head = .ok () ↔
    (head.stage = .prepared → receipt.status = .pending) := by
  unfold resultBound refuse
  split <;> simp_all

theorem wellFormed_iff {bound : Option Binding} {filled : binding.links ≠ []} :
    wellFormed bound = .ok ⟨binding, filled⟩ ↔
      bound = some binding ∧ binding.version = version ∧
        binding.algorithm ∈ ["sha256", "hmac-sha256"] ∧ binding.fieldsOk ∧ binding.linksOk := by
  cases bound with
  | none => simp [wellFormed, refuse]
  | some given =>
    simp only [wellFormed, refuse]
    split_ifs with shaped formed
    · simp only [Bool.and_eq_true] at formed
      constructor
      · intro same
        obtain rfl : given = binding := by simpa using same
        exact ⟨rfl, shaped.1, shaped.2.1, formed⟩
      · rintro ⟨same, -⟩
        obtain rfl : given = binding := by simpa using same
        rfl
    all_goals
      simp only [Option.some.injEq, false_iff]
      rintro ⟨rfl, checked⟩
      simp_all

theorem getLast_eq_lastLink (filled : binding.links ≠ []) (shape : binding.links = root :: rest) :
    binding.links.getLast filled = lastLink root rest := by
  simp only [shape, List.getLast_eq_getLastD, lastLink]

/-- The accepted receipts are those whose binding verifies. -/
theorem check_iff {report : Report} : check crypto key receipt = .ok report ↔
    ∃ binding root rest, Verifies crypto key receipt binding root rest ∧
      report = ⟨(lastLink root rest).stage, (lastLink root rest).digest, rest.length + 1, binding.keyed,
        binding.keyId, receipt.standing⟩ := by
  unfold check
  simp only [bind_ok_iff]
  constructor
  · rintro ⟨⟨binding, filled⟩, formed, _, claim, _, posture, _, matched, _, sealed, _, intact, _,
      result, done⟩
    obtain rfl := Except.ok.inj done
    obtain ⟨bound, version, -, keys, listed⟩ := wellFormed_iff.mp formed
    obtain ⟨root, rest, shape⟩ := List.exists_cons_of_ne_nil filled
    have last := getLast_eq_lastLink filled shape
    simp only [last] at matched sealed result ⊢
    simp only [shape, List.head_cons, List.tail_cons] at intact
    obtain ⟨anchored, prepared, follows⟩ := chainIntact_iff.mp intact
    exact ⟨binding, root, rest, ⟨bound, shape, version, keys, listed, posture_iff.mp ⟨claim, posture⟩,
      fieldsMatch_iff.mp matched, headMatches_iff.mp sealed, anchored, prepared, follows,
      resultBound_iff.mp result⟩, by simp [shape, lastLink]⟩
  · rintro ⟨binding, root, rest, verifies, rfl⟩
    have filled : binding.links ≠ [] := by simp [verifies.shape]
    have last := getLast_eq_lastLink filled verifies.shape
    have algorithm : binding.algorithm ∈ ["sha256", "hmac-sha256"] := by
      rw [verifies.posture.algorithm]
      cases key <;> simp [Receipt.algorithm]
    obtain ⟨claim, posture⟩ := posture_iff.mpr verifies.posture
    refine ⟨⟨binding, filled⟩, wellFormed_iff.mpr ⟨verifies.bound, verifies.version, algorithm,
      verifies.keys, verifies.listed⟩, (), claim, (), posture, (), ?_, (), ?_, (), ?_, (), ?_, ?_⟩
    · simpa only [last] using fieldsMatch_iff.mpr verifies.fields
    · simpa only [last] using headMatches_iff.mpr verifies.head
    · simpa only [verifies.shape, List.head_cons, List.tail_cons] using
        chainIntact_iff.mpr ⟨verifies.anchored, verifies.prepared, verifies.follows⟩
    · simpa only [last] using resultBound_iff.mpr verifies.result
    · simp [verifies.shape, List.getLast_eq_getLastD, lastLink, pure, Except.pure]

/-- The two receipts bind the same identity: all that a prepared anchor covers. -/
def SameIdentity (receipt other : Receipt) : Prop :=
  ∀ field, fieldValue receipt .prepared field = fieldValue other .prepared field

theorem SameIdentity.refl (receipt : Receipt) : SameIdentity receipt receipt := fun _ => rfl

theorem SameIdentity.trans {first second third : Receipt} (left : SameIdentity first second)
    (right : SameIdentity second third) : SameIdentity first third :=
  fun field => (left field).trans (right field)

theorem SameIdentity.symm (same : SameIdentity receipt other) : SameIdentity other receipt :=
  fun field => (same field).symm

theorem fieldDigests_congr
    (same : ∀ field, fieldValue receipt stage field = fieldValue other stage field) :
    fieldDigests crypto receipt stage = fieldDigests crypto other stage := by
  unfold fieldDigests
  simp only [same]

@[simp] theorem tagged_mac (payload : LinkPayload) :
    startsWith (mac crypto payload key) (tag key) := by
  cases key <;> simp [startsWith, mac, tag]

theorem follows_append {last : Link} : follows root (rest ++ [last]) ↔
    follows root rest ∧ last.stage ∈ transitionStages ∧
      last.predecessor = some (lastLink root rest).digest := by
  induction rest generalizing root with
  | nil => simp [follows]
  | cons link rest ih =>
    simp only [List.cons_append, follows, Bool.and_eq_true, ih]
    have shift : lastLink link rest = lastLink root (link :: rest) := by
      simp [lastLink, List.getLast?_cons]
    rw [shift]
    tauto

theorem fieldsOk_fieldDigests :
    ((fieldDigests crypto receipt stage).map Prod.fst).isPerm Receipt.fields := by
  rw [List.isPerm_iff, fieldDigests, List.map_map]
  exact List.Perm.of_eq (List.map_id _)

theorem bind_verifies (crypto : Crypto) (key : Option Key) (predecessor : Option String)
    (receipt : Receipt) (pending : receipt.status = .pending) :
    ∃ binding, Verifies crypto key (bind crypto key predecessor receipt) binding
      (link crypto key .prepared predecessor (fieldDigests crypto receipt .prepared)) [] := by
  refine ⟨_, rfl, rfl, rfl, ?_, ?_, ⟨rfl, rfl, rfl, ?_⟩, ?_, rfl, rfl, rfl, rfl, fun _ => pending⟩
  · exact fieldsOk_fieldDigests
  · simp [Binding.linksOk, link, stages]
  · simp [link]
  · intro field member
    rfl

/-- The binding that a transition from a verifying receipt writes. -/
def Binding.sealed (binding : Binding) (fields : List (Field × String)) (last : Link) : Binding :=
  { binding with fields := fields, links := binding.links ++ [last] }

theorem Verifies.transition_eq (verifies : Verifies crypto key prior binding root rest) :
    transition crypto key prior next stage =
      { next with
        binding := some (binding.sealed (fieldDigests crypto next stage)
          (link crypto key stage (some (lastLink root rest).digest) (fieldDigests crypto next stage))) } := by
  have last : binding.links.getLast? = some (lastLink root rest) := by
    rw [verifies.shape, List.getLast?_cons, lastLink, List.getLastD_eq_getLast?]
  have checked := check_iff.mpr ⟨binding, root, rest, verifies, rfl⟩
  simp only [transition, verifies.bound, checked, last, Binding.sealed, Option.map_some]

theorem Verifies.sealed (verifies : Verifies crypto key prior binding root rest)
    (lawful : stage ∈ transitionStages) (same : SameIdentity next prior) :
    Verifies crypto key (transition crypto key prior next stage)
      (binding.sealed (fieldDigests crypto next stage)
        (link crypto key stage (some (lastLink root rest).digest) (fieldDigests crypto next stage)))
      root (rest ++ [link crypto key stage (some (lastLink root rest).digest)
        (fieldDigests crypto next stage)]) := by
  rw [verifies.transition_eq]
  have unprepared : stage ≠ .prepared := by
    rintro rfl
    simp [transitionStages] at lawful
  refine ⟨rfl, by simp [Binding.sealed, verifies.shape], verifies.version, ?_, ?_,
    ⟨verifies.posture.algorithm, verifies.posture.keyed, verifies.posture.keyId, ?_⟩, ?_, ?_,
    verifies.anchored, ?_, ?_, ?_⟩
  · exact fieldsOk_fieldDigests
  · have listed := verifies.listed
    simp only [Binding.linksOk, Binding.sealed, List.all_append, Bool.and_eq_true] at listed ⊢
    exact ⟨listed, by simp [link, stages, lawful]⟩
  · intro each member
    rcases List.mem_append.mp member with earlier | last
    · exact verifies.posture.tagged each earlier
    · obtain rfl := List.mem_singleton.mp last
      exact tagged_mac _
  · intro field _
    simp only [lastLink_append]
    rfl
  · simp only [lastLink_append]
    rfl
  · rw [← verifies.prepared]
    exact congrArg (fun digests => (link crypto key .prepared root.predecessor digests).digest)
      (fieldDigests_congr same)
  · exact follows_append.mpr ⟨verifies.follows, lawful, rfl⟩
  · rw [lastLink_append]
    exact fun prepared => absurd prepared unprepared

@[simp] theorem fieldValue_transition (crypto : Crypto) (key : Option Key) (prior next : Receipt)
    (sealing stage : Stage) (field : Field) :
    fieldValue (transition crypto key prior next sealing) stage field = fieldValue next stage field := by
  unfold transition
  split
  next => cases field <;> rfl
  next => split <;> cases field <;> rfl

/-- A change that touches nothing bound leaves the receipt as valid as it was. -/
theorem Verifies.congr (verifies : Verifies crypto key receipt binding root rest)
    (bound : other.binding = receipt.binding)
    (same : ∀ stage field, fieldValue other stage field = fieldValue receipt stage field) :
    Verifies crypto key other binding root rest := by
  have digests (stage : Stage) : fieldDigests crypto other stage = fieldDigests crypto receipt stage :=
    fieldDigests_congr (same stage)
  have status : other.status = receipt.status := (FieldValue.resultIdentity.inj (same .final .resultIdentity)).1
  exact { verifies with
    bound := bound.trans verifies.bound
    fields := by simpa only [digests] using verifies.fields
    head := by simpa only [digests] using verifies.head
    prepared := by simpa only [digests] using verifies.prepared
    result := by simpa only [status] using verifies.result }

def links (receipt : Receipt) : List Link := (receipt.binding.map (·.links)).getD []

theorem Verifies.links_eq (verifies : Verifies crypto key receipt binding root rest) :
    receipt.links = root :: rest := by
  simp only [links, verifies.bound, Option.map_some, Option.getD_some, verifies.shape]

end AshA2A.Receipt
