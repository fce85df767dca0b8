import AshA2A.Semantic.Standing
import Mathlib.Data.List.Chain
import Mathlib.Data.List.GetD

/-! The path that a ledger records for an envelope. -/

namespace AshA2A.Semantic.Standing.Ledger

/-- The next state of the chain. -/
def Successor (origin next : State) : Prop :=
  ∃ index, chain[index]? = some origin ∧ chain[index + 1]? = some next

/-- A step along the chain, the end of an envelope, the genesis of one that arrived, or an admission
verdict in one step. -/
inductive Edge : State → State → Prop where
  | successor {origin next : State} (arrived : origin ≠ "received") (follows : Successor origin next) : Edge origin next
  | ending {origin next : State} (living : origin ∈ chain) (ended : next ∈ terminal) : Edge origin next
  | genesis : Edge "received" "candidate"
  | verdict : Edge "candidate" "admitted"

/-- Each transition starts where the path so far ends, and the first one at the genesis or the arrival. -/
def Continued (transitions : List Entry) : Prop :=
  ∀ before entry after, transitions = before ++ entry :: after →
    match (pathOf before).getLast? with
    | none => entry.origin = "candidate" ∨ entry.origin = "received"
    | some current => entry.origin = current

structure Lawful (states : List State) : Prop where
  initial : ∀ first ∈ states.head?, first = "candidate" ∨ first = "received"
  edges : states.IsChain Edge
  ends : ∀ before last after, states = before ++ last :: after → last ∈ terminal → after = []

theorem successor_of_predecessor {origin next : State} (given : predecessor next = origin) (named : origin ≠ "nil") :
    Successor origin next := by
  unfold predecessor rank at given
  split at given
  · exact absurd given.symm named
  · exact absurd given.symm named
  next index found =>
    obtain ⟨within, same, _⟩ := List.findIdx?_eq_some_iff_getElem.mp found
    have before : index < chain.length := Nat.lt_of_succ_lt within
    refine ⟨index, ?_, ?_⟩
    · rw [List.getElem?_eq_getElem before, ← given, List.getD_eq_getElem _ _ before]
    · rw [List.getElem?_eq_getElem within]
      exact congrArg some (of_decide_eq_true same)

theorem edge_of_legal {origin next : State} (legal : legalLedgerEdge origin next) (named : origin ≠ "nil") :
    Edge origin next := by
  unfold legalLedgerEdge at legal
  split at legal
  next arrived =>
    subst arrived
    obtain rfl | ended := of_decide_eq_true legal
    · exact .genesis
    · exact .ending (by decide) ended
  next arrived =>
    split at legal
    next both =>
      obtain ⟨rfl, rfl⟩ := both
      exact .verdict
    next =>
      obtain ⟨living, ended⟩ | follows := of_decide_eq_true legal
      · exact .ending living ended
      · exact .successor arrived (successor_of_predecessor follows named)

theorem Edge.living {origin next : State} (edge : Edge origin next) : origin ∈ chain := by
  cases edge with
  | successor _ follows =>
    obtain ⟨index, held, _⟩ := follows
    exact List.mem_of_getElem? held
  | ending living _ => exact living
  | genesis => decide
  | verdict => decide

theorem Edge.known {origin next : State} (edge : Edge origin next) : next ∈ chain ∨ next ∈ terminal := by
  cases edge with
  | successor _ follows =>
    obtain ⟨index, _, held⟩ := follows
    exact .inl (List.mem_of_getElem? held)
  | ending _ ended => exact .inr ended
  | genesis => exact .inl (by decide)
  | verdict => exact .inl (by decide)

theorem Edge.after_arrival {next : State} (edge : Edge "received" next) : next = "candidate" ∨ next ∈ terminal := by
  generalize given : ("received" : State) = origin at edge
  cases edge with
  | successor arrived _ => exact absurd given.symm arrived
  | ending _ ended => exact .inr ended
  | genesis => exact .inl rfl
  | verdict => exact absurd given (by decide)

/-- No state of the chain is terminal, and none is called `nil`. -/
theorem not_terminal {state : State} (living : state ∈ chain) : state ∉ terminal := by
  revert state
  decide

theorem ne_nil {state : State} (known : state ∈ chain ∨ state ∈ terminal) : state ≠ "nil" := by
  rintro rfl
  revert known
  decide

theorem lawful_of_edges {states : List State} (initial : ∀ first ∈ states.head?, first = "candidate" ∨ first = "received")
    (edges : states.IsChain Edge) : Lawful states := by
  refine ⟨initial, edges, fun before last after split ended => ?_⟩
  cases after with
  | nil => rfl
  | cons next after =>
    rw [split, List.isChain_append_cons_cons] at edges
    exact absurd ended (not_terminal edges.2.1.living)

/-! ## What a run records -/

theorem run_snoc (calls : List Entry) (entry : Entry) : run (calls ++ [entry]) = (record (run calls) entry).2 := by
  rw [run, List.foldl_append]
  rfl

/-- Whatever was called before, only legal edges are recorded. -/
theorem recorded_legal (calls : List Entry) : ∀ entry ∈ run calls, legalLedgerEdge entry.origin entry.next := by
  induction calls using List.reverseRecOn with
  | nil => exact fun _ member => absurd member List.not_mem_nil
  | append_singleton calls entry ih =>
    rw [run_snoc, record]
    split
    next legal => exact List.forall_mem_append.mpr ⟨ih, List.forall_mem_singleton.mpr legal⟩
    next => exact ih

theorem Continued.before {transitions : List Entry} {entry : Entry} (continued : Continued (transitions ++ [entry])) :
    Continued transitions := by
  intro before middle after split
  exact continued before middle (after ++ [entry]) (by rw [split, List.append_assoc, List.cons_append])

theorem pathOf_snoc {transitions : List Entry} (some : transitions ≠ []) (entry : Entry) :
    pathOf (transitions ++ [entry]) = pathOf transitions ++ [entry.next] := by
  cases transitions with
  | nil => exact absurd rfl some
  | cons first rest => simp [pathOf]

theorem pathOf_lawful {transitions : List Entry} (legal : ∀ entry ∈ transitions, legalLedgerEdge entry.origin entry.next)
    (continued : Continued transitions) :
    Lawful (pathOf transitions) ∧ ∀ state ∈ pathOf transitions, state ∈ chain ∨ state ∈ terminal := by
  induction transitions using List.reverseRecOn with
  | nil => exact ⟨⟨nofun, .nil, fun before _ _ split => by cases before <;> cases split⟩, nofun⟩
  | append_singleton transitions entry ih =>
    obtain ⟨earlier, last⟩ := List.forall_mem_append.mp legal
    obtain ⟨lawful, known⟩ := ih earlier continued.before
    have starts := continued transitions entry [] rfl
    have edge_of (named : entry.origin ≠ "nil") := edge_of_legal (last entry (List.mem_singleton.mpr rfl)) named
    cases transitions with
    | nil =>
      have edge := edge_of (by obtain same | same := starts <;> rw [same] <;> decide)
      refine ⟨lawful_of_edges ?_ (List.isChain_pair.mpr edge), ?_⟩
      · rintro _ ⟨⟩
        exact starts
      · rintro state member
        obtain rfl | member := List.mem_cons.mp member
        · exact .inl edge.living
        · cases List.mem_singleton.mp member
          exact edge.known
    | cons first rest =>
      rw [pathOf_snoc (List.cons_ne_nil first rest)]
      have current : (pathOf (first :: rest)).getLast? = some entry.origin := by
        cases ends : (pathOf (first :: rest)).getLast? with
        | none => cases List.getLast?_eq_none_iff.mp ends
        | some last =>
          rw [ends] at starts
          exact congrArg some starts.symm
      have edge := edge_of (ne_nil (known _ (List.mem_of_getLast? current)))
      refine ⟨lawful_of_edges ?_ ?_, List.forall_mem_append.mpr ⟨known, List.forall_mem_singleton.mpr edge.known⟩⟩
      · exact lawful.initial
      · refine List.isChain_append.mpr ⟨lawful.edges, .singleton _, ?_⟩
        intro before same after same'
        cases current.symm.trans same
        cases same'
        exact edge

end AshA2A.Semantic.Standing.Ledger
