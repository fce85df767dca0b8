import AshA2A.Outcome
import AshA2A.Pieces
import AshA2A.Security.DLPFilter

/-! What the DLP filter writes: the text with pairwise disjoint runs replaced, as long as the runs that are found
do not overlap. -/

namespace AshA2A.Security.DLPFilter
open UniqueBy Pieces

variable {host : Host} {cfg : Config} {binary : Bytes} {finding : Finding} {found : List Finding} {done last : Splice}

/-! ## Parts of a text -/

theorem binaryPart_some {start length : Int} : (∃ part, binaryPart binary start length = some part) ↔
    0 ≤ min start (start + length) ∧ max start (start + length) ≤ binary.length := by
  rw [binaryPart]
  split
  case isTrue inside => exact iff_of_true ⟨_, rfl⟩ inside
  case isFalse outside => exact iff_of_false nofun outside

theorem binaryPart_nat {start length : Nat} (inside : start + length ≤ binary.length) :
    binaryPart binary start length = some ((binary.drop start).take length) := by
  have first : min (start : Int) (start + length) = start := by omega
  have last : max (start : Int) (start + length) = start + length := by omega
  rw [binaryPart, first, last, if_pos (by omega)]
  have size : ((start : Int) + length - start).toNat = length := by omega
  rw [size]
  rfl

theorem take_drop {start length : Nat} :
    (binary.drop start).take length ++ binary.drop (start + length) = binary.drop start := by
  rw [← List.drop_drop]
  exact List.take_append_drop _ _

/-! ## Order -/

/-- Each run begins where the one before it ended or later, and the last one ends within the text. -/
def InOrder (size : Nat) : Int → List Finding → Prop
  | offset, [] => offset ≤ size
  | offset, finding :: found =>
    offset ≤ finding.span.start ∧ 0 ≤ finding.span.length ∧ InOrder size finding.span.stop found

/-- The names of the patterns are texts. -/
def Named (finding : Finding) : Prop := (Pseudonym.nameOf (finding.pattern.getD (.binary []))).isSome

theorem InOrder.within {size : Nat} {offset : Int} (order : InOrder size offset found) : offset ≤ size := by
  induction found generalizing offset with
  | nil => exact order
  | cons finding found ih =>
    obtain ⟨before, positive, rest⟩ := order
    have stop := ih rest
    rw [Span.stop] at stop
    omega

/-- The mark of a place: what was found there, with its token. -/
def Stands (mark : Finding × Bytes) (start length : Nat) : Prop := mark.1.span = ⟨start, length⟩

/-- The place of a finding is replaced by its token. -/
def Tokened (host : Host) (cfg : Config) (piece : Piece UInt8 (Finding × Bytes)) : Prop :=
  piece.mark.2 = piece.token ∧
    Pseudonym.token host piece.plain piece.mark.1.kind cfg.key (piece.mark.1.pattern.getD (.binary [])) = some piece.token

/-- The redaction is the text with disjoint runs replaced by their tokens, and everything else kept in its place. -/
def Replaced (host : Host) (cfg : Config) (binary : Bytes) (redaction : Redaction) : Prop :=
  ∃ pieces tail, binary = source pieces tail ∧ redaction.text = target pieces tail ∧
    redaction.findings = pieces.map Piece.mark ∧ Placed Stands 0 pieces ∧ ∀ piece ∈ pieces, Tokened host cfg piece

/-! ## The splice -/

theorem splice_findings (spliced : splice host cfg binary done finding = some last) :
    last.redaction.findings.map Prod.fst = done.redaction.findings.map Prod.fst ++ [finding] := by
  obtain ⟨plain, -, spliced⟩ := Option.bind_eq_some_iff.mp spliced
  obtain ⟨token, -, spliced⟩ := Option.bind_eq_some_iff.mp spliced
  obtain ⟨chunk, -, same⟩ := Option.bind_eq_some_iff.mp spliced
  cases same
  simp

theorem splices_findings (spliced : found.foldlM (splice host cfg binary) done = some last) :
    last.redaction.findings.map Prod.fst = done.redaction.findings.map Prod.fst ++ found := by
  induction found generalizing done with
  | nil =>
    cases spliced
    simp
  | cons finding found ih =>
    obtain ⟨next, one, rest⟩ := Option.bind_eq_some_iff.mp ((List.foldlM_cons ..).symm.trans spliced)
    rw [ih rest, splice_findings one, List.append_assoc, List.singleton_append]

/-- One run that begins behind what is read. -/
theorem splice_piece {offset : Nat} (reached : done.offset = offset) (before : (offset : Int) ≤ finding.span.start)
    (positive : 0 ≤ finding.span.length) (within : finding.span.stop ≤ binary.length) (named : Named finding) :
    ∃ piece : Piece UInt8 (Finding × Bytes), Tokened host cfg piece ∧ piece.mark.1 = finding ∧
      binary.drop offset = piece.gap ++ (piece.plain ++ binary.drop (offset + piece.gap.length + piece.plain.length)) ∧
      offset + piece.gap.length + piece.plain.length ≤ binary.length ∧
      Stands piece.mark (offset + piece.gap.length) piece.plain.length ∧
      splice host cfg binary done finding =
        some ⟨⟨done.redaction.text ++ (piece.gap ++ piece.token), done.redaction.findings ++ [piece.mark]⟩,
          (offset + piece.gap.length + piece.plain.length : Nat)⟩ := by
  obtain ⟨kind, ⟨start, length⟩, pattern⟩ := finding
  obtain ⟨start, rfl⟩ : ∃ natural : Nat, start = natural := ⟨start.toNat, by simp only at before; omega⟩
  obtain ⟨length, rfl⟩ := Int.eq_ofNat_of_zero_le positive
  obtain ⟨more, rfl⟩ : ∃ more, start = offset + more := Nat.exists_eq_add_of_le (by simpa using before)
  have inside : offset + more + length ≤ binary.length := by
    simp only [Span.stop] at within
    omega
  obtain ⟨name, known⟩ := Option.isSome_iff_exists.mp named
  let plain := (binary.drop (offset + more)).take length
  let gap := (binary.drop offset).take more
  let token := Pseudonym.mint host plain kind cfg.key name
  have plainSize : plain.length = length := by simp only [plain, List.length_take, List.length_drop]; omega
  have gapSize : gap.length = more := by simp only [gap, List.length_take, List.length_drop]; omega
  have minted : Pseudonym.token host plain kind cfg.key (pattern.getD (.binary [])) = some token := by
    rw [Pseudonym.token, known]
    rfl
  refine ⟨⟨gap, plain, token, ⟨⟨kind, ⟨(offset + more : Nat), length⟩, pattern⟩, token⟩⟩, ⟨rfl, minted⟩, rfl, ?_, ?_, ?_, ?_⟩
  · have second : plain ++ binary.drop (offset + more + length) = binary.drop (offset + more) := take_drop
    have first : gap ++ binary.drop (offset + more) = binary.drop offset := take_drop
    rw [gapSize, plainSize, second, first]
  · rw [gapSize, plainSize]
    exact inside
  · rw [Stands, gapSize, plainSize]
  · rw [gapSize, plainSize]
    have part : binaryPart binary (offset + more : Nat) length = some plain := binaryPart_nat inside
    have chunk : between binary done.offset (offset + more : Nat) = some gap := by
      rw [between, reached]
      split
      case isTrue same =>
        have none : more = 0 := by omega
        rw [show gap = [] from List.eq_nil_of_length_eq_zero (gapSize.trans none)]
      case isFalse =>
        have size : ((offset + more : Nat) : Int) - offset = more := by omega
        rw [size]
        exact binaryPart_nat (by omega)
    simp only [splice, part, minted, chunk, Option.bind_eq_bind, Option.bind_some, List.append_assoc]
    rfl

theorem splices_pieces {offset : Nat} (order : InOrder binary.length offset found)
    (named : ∀ finding ∈ found, Named finding) (reached : done.offset = offset) :
    ∃ (pieces : List (Piece UInt8 (Finding × Bytes))) (stop : Nat) (last : Splice),
      found.foldlM (splice host cfg binary) done = some last ∧ last.offset = stop ∧ stop ≤ binary.length ∧
      binary.drop offset = source pieces (binary.drop stop) ∧
      last.redaction.text ++ binary.drop stop = done.redaction.text ++ target pieces (binary.drop stop) ∧
      last.redaction.findings = done.redaction.findings ++ pieces.map Piece.mark ∧ Placed Stands offset pieces ∧
      ∀ piece ∈ pieces, Tokened host cfg piece := by
  induction found generalizing offset done with
  | nil =>
    refine ⟨[], offset, done, rfl, reached, ?_, rfl, rfl, by simp, trivial, fun _ none => absurd none List.not_mem_nil⟩
    exact Int.ofNat_le.mp order
  | cons finding found ih =>
    obtain ⟨before, positive, order⟩ := order
    obtain ⟨known, named⟩ := List.forall_mem_cons.mp named
    obtain ⟨piece, tokened, same, split, inside, stands, spliced⟩ :=
      @splice_piece host cfg binary finding done offset reached before positive order.within known
    have stop : finding.span.stop = (offset + piece.gap.length + piece.plain.length : Nat) := by
      rw [← same, stands]
      simp [Span.stop]
    rw [stop] at order
    let next : Splice := ⟨⟨done.redaction.text ++ (piece.gap ++ piece.token), done.redaction.findings ++ [piece.mark]⟩,
      (offset + piece.gap.length + piece.plain.length : Nat)⟩
    have reached : next.offset = (offset + piece.gap.length + piece.plain.length : Nat) := rfl
    obtain ⟨pieces, stop, last, folded, ended, bound, text, written, findings, placed, all⟩ := ih order named reached
    refine ⟨piece :: pieces, stop, last, ?_, ended, bound, ?_, ?_, ?_, ⟨stands, placed⟩, List.forall_mem_cons.mpr ⟨tokened, all⟩⟩
    · rw [List.foldlM_cons, spliced]
      exact folded
    · rw [split, source, ← text]
    · rw [written, target, List.append_assoc, List.append_assoc]
    · rw [findings, List.map_cons, List.append_assoc, List.singleton_append]

theorem order_of_placed {pieces : List (Piece UInt8 (Finding × Bytes))} {tail : Bytes} {offset size : Nat}
    (placed : Placed Stands offset pieces) (whole : offset + (source pieces tail).length ≤ size) :
    InOrder size offset (pieces.map fun piece => piece.mark.1) := by
  induction pieces generalizing offset with
  | nil =>
    show (offset : Int) ≤ size
    omega
  | cons piece pieces ih =>
    obtain ⟨stands, placed⟩ := placed
    simp only [source, List.length_append] at whole
    refine ⟨?_, ?_, ?_⟩
    · rw [stands]
      exact Int.ofNat_le.mpr (Nat.le_add_right _ _)
    · rw [stands]
      exact Int.natCast_nonneg _
    · have stop : piece.mark.1.span.stop = (offset + piece.gap.length + piece.plain.length : Nat) := by
        rw [stands]
        simp [Span.stop]
      rw [stop]
      exact ih placed (by omega)

theorem spans_sorted (detected : spans host cfg binary = some found) :
    sortBy (fun finding => finding.span.start) found = found := by
  obtain ⟨results, -, same⟩ := Option.bind_eq_some_iff.mp detected
  cases same
  exact (List.pairwise_insertionSort _ _).insertionSort_eq

/-! ## The redaction of a text -/

/-- The runs that are found do not overlap, and their tokens can be made. -/
def Apart (host : Host) (cfg : Config) (binary : Bytes) : Prop :=
  ∃ found, spans host cfg binary = some found ∧ InOrder binary.length 0 found ∧ ∀ finding ∈ found, Named finding

/-- Every run that is found is hidden behind its token, and nothing else is changed. -/
def Hidden (host : Host) (cfg : Config) (binary : Bytes) : Prop :=
  ∃ found redaction, spans host cfg binary = some found ∧ redactBinary host cfg binary = some redaction ∧
    redaction.findings.map Prod.fst = found ∧ Replaced host cfg binary redaction

theorem redactBinary_spans {redaction : Redaction} (detected : spans host cfg binary = some found)
    (redacted : redactBinary host cfg binary = some redaction) : redaction.findings.map Prod.fst = found := by
  rw [redactBinary, detected] at redacted
  dsimp only [Option.bind_eq_bind, Option.bind_some] at redacted
  split at redacted
  · cases redacted
    rfl
  · obtain ⟨last, folded, redacted⟩ := Option.bind_eq_some_iff.mp redacted
    obtain ⟨tail, -, same⟩ := Option.bind_eq_some_iff.mp redacted
    cases same
    rw [spans_sorted detected] at folded
    exact splices_findings folded

theorem hidden_of_apart (apart : Apart host cfg binary) : Hidden host cfg binary := by
  obtain ⟨found, detected, order, named⟩ := apart
  obtain ⟨pieces, stop, last, folded, ended, bound, text, written, findings, placed, tokened⟩ :=
    @splices_pieces host cfg binary found {} 0 order named rfl
  suffices redacted : redactBinary host cfg binary = some ⟨target pieces (binary.drop stop), pieces.map Piece.mark⟩ from
    ⟨found, _, detected, redacted, redactBinary_spans detected redacted, pieces, _, text, rfl, rfl, placed, tokened⟩
  rw [redactBinary, detected]
  dsimp only [Option.bind_eq_bind, Option.bind_some]
  split
  case h_1 =>
    cases folded
    have none : pieces = [] := List.map_eq_nil_iff.mp findings.symm
    cases Int.ofNat_inj.mp ended
    rw [none]
    rfl
  case h_2 =>
    have tail : binaryPart binary last.offset (binary.length - last.offset) = some (binary.drop stop) := by
      have size : (binary.length : Int) - stop = (binary.length - stop : Nat) := by omega
      rw [ended, size, binaryPart_nat (by omega), List.take_of_length_le (by rw [List.length_drop])]
    rw [spans_sorted detected, folded]
    simp only [Option.bind_some, tail, written, findings]
    rfl

theorem hidden_iff_apart : Hidden host cfg binary ↔ Apart host cfg binary := by
  refine ⟨?_, hidden_of_apart⟩
  rintro ⟨found, redaction, detected, -, findings, pieces, tail, rfl, -, marks, placed, tokened⟩
  have same : (pieces.map fun piece => piece.mark.1) = found := by
    rw [← findings, marks, List.map_map]
    rfl
  have order : InOrder (source pieces tail).length (0 : Nat) (pieces.map fun piece => piece.mark.1) :=
    order_of_placed placed (show 0 + (source pieces tail).length ≤ _ by omega)
  refine ⟨found, detected, same ▸ order, ?_⟩
  intro finding member
  obtain ⟨piece, among, rfl⟩ := List.mem_map.mp (same ▸ member)
  obtain ⟨name, known, -⟩ := Option.map_eq_some_iff.mp (tokened piece among).2
  exact Option.isSome_of_eq_some known

/-! ## The windows -/

theorem overlaps_comm {first second : Span} : overlaps first second = overlaps second first := by
  simp only [overlaps, and_comm]

/-- The claims of lists, one after the other. -/
def claimStep (state : List Finding × List Span) (findings : List Finding) : List Finding × List Span :=
  let new := findings.filter fun finding => !state.2.any (overlaps finding.span)
  (state.1 ++ new, new.map Finding.span ++ state.2)

/-- What is kept, and what it claims. -/
def Claimed (state : List Finding × List Span) : Prop := ∀ span, span ∈ state.2 ↔ ∃ finding ∈ state.1, finding.span = span

theorem claimStep_claimed {state : List Finding × List Span} (claimed : Claimed state) (findings : List Finding) :
    Claimed (claimStep state findings) := by
  intro span
  simp only [claimStep, List.mem_append, List.mem_map, claimed span]
  constructor
  · rintro (⟨finding, new, rfl⟩ | ⟨finding, known, rfl⟩)
    · exact ⟨finding, .inr new, rfl⟩
    · exact ⟨finding, .inl known, rfl⟩
  · rintro ⟨finding, known | new, rfl⟩
    · exact .inr ⟨finding, known, rfl⟩
    · exact .inl ⟨finding, new, rfl⟩

theorem mem_claimStep {state : List Finding × List Span} (claimed : Claimed state) {findings : List Finding} :
    finding ∈ (claimStep state findings).1 ↔
      finding ∈ state.1 ∨ finding ∈ findings ∧ ∀ known ∈ state.1, overlaps finding.span known.span = false := by
  simp only [claimStep, List.mem_append, List.mem_filter, Bool.not_eq_true', List.any_eq_false, Bool.not_eq_true]
  refine or_congr_right (and_congr_right fun _ => ?_)
  constructor
  · exact fun free known member => free known.span ((claimed _).mpr ⟨known, member, rfl⟩)
  · intro free span member
    obtain ⟨known, among, rfl⟩ := (claimed _).mp member
    exact free known among

/-- Runs of different kinds do not overlap. -/
def CrossFree (findings : List Finding) : Prop :=
  ∀ first ∈ findings, ∀ second ∈ findings, first.kind ≠ second.kind → overlaps first.span second.span = false

theorem claimStep_free {state : List Finding × List Span} {findings : List Finding} {kind : Kind} (claimed : Claimed state)
    (free : CrossFree state.1) (alike : ∀ finding ∈ findings, finding.kind = kind) :
    CrossFree (claimStep state findings).1 := by
  intro first one second two different
  obtain known | ⟨new, clear⟩ := (mem_claimStep claimed).mp one
  · obtain known' | ⟨new', clear'⟩ := (mem_claimStep claimed).mp two
    · exact free first known second known' different
    · rw [overlaps_comm]
      exact clear' first known
  · obtain known' | ⟨new', clear'⟩ := (mem_claimStep claimed).mp two
    · exact clear second known'
    · exact absurd ((alike first new).trans (alike second new').symm) different

section Lists
variable {lists : Kind → List Finding}

/-- The runs of a kind are in the list of the kind. -/
def Sorted (lists : Kind → List Finding) : Prop := ∀ kind, ∀ finding ∈ lists kind, finding.kind = kind

def Kind.rank (kind : Kind) : Nat := kinds.idxOf kind

/-- A run of a higher priority among these touches it. -/
def Touched (findings : List Finding) (finding : Finding) : Prop :=
  ∃ claimed ∈ findings, claimed.kind.rank < finding.kind.rank ∧ overlaps finding.span claimed.span = true

theorem CrossFree.untouched {found : List Finding} (free : CrossFree found) (member : finding ∈ found) :
    ¬ Touched found finding := by
  rintro ⟨claimed, among, rank, touching⟩
  have different : finding.kind ≠ claimed.kind := fun alike => absurd rank (alike ▸ lt_irrefl _)
  rw [free finding member claimed among different] at touching
  cases touching

/-- The kinds that were claimed for, by their priority. -/
structure Claims (lists : Kind → List Finding) (seen : List Kind) (state : List Finding × List Span) : Prop where
  claimed : Claimed state
  free : CrossFree state.1
  known : ∀ finding ∈ state.1, finding.kind ∈ seen ∧ finding ∈ lists finding.kind
  kept : ∀ kind ∈ seen, ∀ finding ∈ lists kind, ¬ Touched state.1 finding → finding ∈ state.1

theorem Claims.step {seen : List Kind} {state : List Finding × List Span} (claims : Claims lists seen state)
    (sorted : Sorted lists) {kind : Kind} (later : ∀ other ∈ seen, other.rank < kind.rank) :
    Claims lists (kind :: seen) (claimStep state (lists kind)) where
  claimed := claimStep_claimed claims.claimed _
  free := claimStep_free claims.claimed claims.free (sorted kind)
  known finding member := by
    obtain known | ⟨own, -⟩ := (mem_claimStep claims.claimed).mp member
    · obtain ⟨before, listed⟩ := claims.known finding known
      exact ⟨List.mem_cons_of_mem _ before, listed⟩
    · obtain rfl := sorted kind finding own
      exact ⟨List.mem_cons_self, own⟩
  kept other seen finding member untouched := by
    refine (mem_claimStep claims.claimed).mpr ?_
    have before : ∀ known ∈ state.1, known ∈ (claimStep state (lists kind)).1 := fun known among =>
      (mem_claimStep claims.claimed).mpr (.inl among)
    obtain rfl | seen := List.mem_cons.mp seen
    · refine .inr ⟨member, fun known among => eq_false_of_ne_true fun touching => untouched ?_⟩
      obtain ⟨earlier, -⟩ := claims.known known among
      exact ⟨known, before known among, sorted _ finding member ▸ later _ earlier, touching⟩
    · refine .inl (claims.kept other seen finding member ?_)
      exact fun ⟨known, among, rank, touching⟩ => untouched ⟨known, before known among, rank, touching⟩

theorem claims_kinds (sorted : Sorted lists) :
    ∃ state seen, Claims lists seen state ∧ claimNonOverlapping (kinds.map lists) = state.1 ∧ ∀ kind, kind ∈ seen := by
  have start : Claims lists [.pan] (lists .pan, (lists .pan).map Finding.span) := by
    refine ⟨fun span => List.mem_map, fun first one second two different => ?_, fun finding member => ?_, ?_⟩
    · exact absurd ((sorted _ first one).trans (sorted _ second two).symm) different
    · obtain same := sorted _ finding member
      exact ⟨same ▸ List.mem_cons_self, same ▸ member⟩
    · intro kind seen finding member _
      exact List.mem_singleton.mp seen ▸ member
  have second := start.step sorted (by decide : ∀ other ∈ [Kind.pan], other.rank < Kind.ssn.rank)
  have third := second.step sorted (by decide : ∀ other ∈ [Kind.ssn, .pan], other.rank < Kind.phi.rank)
  exact ⟨_, _, third.step sorted (by decide : ∀ other ∈ [Kind.phi, .ssn, .pan], other.rank < Kind.apiKey.rank), rfl,
    fun kind => by cases kind <;> decide⟩

/-- Runs of different kinds do not overlap in what is kept. -/
theorem claim_free (sorted : Sorted lists) : CrossFree (claimNonOverlapping (kinds.map lists)) := by
  obtain ⟨state, seen, claims, same, -⟩ := claims_kinds sorted
  exact same ▸ claims.free

/-- A run is kept unless one of a higher priority touches it. -/
theorem mem_claim (sorted : Sorted lists) : finding ∈ claimNonOverlapping (kinds.map lists) ↔
    finding ∈ lists finding.kind ∧ ¬ Touched (claimNonOverlapping (kinds.map lists)) finding := by
  obtain ⟨state, seen, claims, same, all⟩ := claims_kinds sorted
  rw [same]
  constructor
  · exact fun member => ⟨(claims.known finding member).2, claims.free.untouched member⟩
  · exact fun ⟨member, untouched⟩ => claims.kept _ (all _) finding member untouched

/-- What is kept of the lists are these runs, just where they are among them and whatever else is there touches one of
a higher priority. -/
theorem claim_iff (sorted : Sorted lists) {found : List Finding} (free : CrossFree found) :
    (∀ finding, finding ∈ claimNonOverlapping (kinds.map lists) ↔ finding ∈ found) ↔
      (∀ finding ∈ found, finding ∈ lists finding.kind) ∧
        ∀ finding, finding ∈ lists finding.kind → finding ∈ found ∨ Touched found finding := by
  constructor
  · intro same
    refine ⟨fun finding member => ((mem_claim sorted).mp ((same finding).mpr member)).1, fun finding member => ?_⟩
    by_cases known : finding ∈ found
    · exact .inl known
    · by_contra untouched
      refine known ((same finding).mp ((mem_claim sorted).mpr ⟨member, ?_⟩))
      rintro ⟨claimed, among, rank, touching⟩
      exact untouched (.inr ⟨claimed, (same claimed).mp among, rank, touching⟩)
  · rintro ⟨all, others⟩
    -- by the priority: what touches a run is known before the run itself
    suffices ranks : ∀ rank finding, finding.kind.rank = rank →
        (finding ∈ claimNonOverlapping (kinds.map lists) ↔ finding ∈ found) from fun finding => ranks _ finding rfl
    intro rank
    induction rank using Nat.strong_induction_on with
    | h rank ih =>
    intro finding own
    have touched : Touched (claimNonOverlapping (kinds.map lists)) finding ↔ Touched found finding := by
      refine exists_congr fun claimed => ⟨?_, ?_⟩
      · exact fun ⟨among, lower, touching⟩ => ⟨(ih _ (own ▸ lower) claimed rfl).mp among, lower, touching⟩
      · exact fun ⟨among, lower, touching⟩ => ⟨(ih _ (own ▸ lower) claimed rfl).mpr among, lower, touching⟩
    rw [mem_claim sorted, touched]
    constructor
    · exact fun ⟨listed, untouched⟩ => (others finding listed).resolve_right untouched
    · exact fun member => ⟨all finding member, free.untouched member⟩

end Lists

/-- The findings, kind by kind. -/
def byKind (pans ssns phis keys : List Finding) : Kind → List Finding
  | .pan => pans
  | .ssn => ssns
  | .phi => phis
  | .apiKey => keys

theorem detect_sorted {text : Bytes} {found : List (List Finding)} (detected : detect host cfg text = some found) :
    ∃ lists, found = kinds.map lists ∧ Sorted lists := by
  obtain ⟨pans, onePan, detected⟩ := Option.bind_eq_some_iff.mp detected
  obtain ⟨ssns, oneSsn, detected⟩ := Option.bind_eq_some_iff.mp detected
  obtain ⟨phis, onePhi, detected⟩ := Option.bind_eq_some_iff.mp detected
  obtain ⟨keys, oneKey, same⟩ := Option.bind_eq_some_iff.mp detected
  cases same
  refine ⟨byKind pans ssns phis keys, rfl, ?_⟩
  intro kind finding member
  cases kind with
  | pan =>
    obtain ⟨_, -, made⟩ := Option.bind_eq_some_iff.mp onePan
    obtain ⟨spans, -, same⟩ := Option.bind_eq_some_iff.mp made
    cases same
    obtain ⟨span, -, rfl⟩ := List.mem_map.mp member
    rfl
  | ssn =>
    obtain ⟨spans, -, same⟩ := Option.bind_eq_some_iff.mp oneSsn
    cases same
    obtain ⟨span, -, rfl⟩ := List.mem_map.mp member
    rfl
  | phi =>
    obtain ⟨lists, made, rfl⟩ := Option.map_eq_some_iff.mp onePhi
    obtain ⟨list, among, member⟩ := List.mem_flatten.mp member
    obtain ⟨pattern, -, scanned⟩ := (mapM_mem made).mp among
    obtain ⟨spans, -, rfl⟩ := Option.map_eq_some_iff.mp scanned
    obtain ⟨span, -, rfl⟩ := List.mem_map.mp member
    rfl
  | apiKey =>
    obtain ⟨_, -, made⟩ := Option.bind_eq_some_iff.mp oneKey
    obtain ⟨spans, -, same⟩ := Option.bind_eq_some_iff.mp made
    cases same
    obtain ⟨span, -, rfl⟩ := List.mem_map.mp member
    rfl

/-- The runs that are found when the text is scanned at once. -/
def whole (host : Host) (cfg : Config) (binary : Bytes) : Option (List Finding) :=
  (detect host cfg binary).map claimNonOverlapping

/-- A window finds the run among those that begin in it. -/
def Found (host : Host) (cfg : Config) (binary : Bytes) (finding : Finding) : Prop :=
  ∃ range ∈ chunkRanges binary.length, ∃ kept, scanChunk host cfg binary range = some kept ∧ finding ∈ kept

/-- The windows find the runs of the whole text, and whatever else they find touches one of a higher priority. -/
structure Seen (host : Host) (cfg : Config) (binary : Bytes) (found : List Finding) : Prop where
  steady : ∀ range ∈ chunkRanges binary.length, ∃ kept, scanChunk host cfg binary range = some kept
  all : ∀ finding ∈ found, Found host cfg binary finding
  others : ∀ finding, Found host cfg binary finding → finding ∈ found ∨ Touched found finding

/-- The windows find runs that do not overlap, just where they see no piece of another. -/
theorem spans_iff_seen (free : CrossFree found) :
    (∃ windowed, spans host cfg binary = some windowed ∧ ∀ finding, finding ∈ windowed ↔ finding ∈ found) ↔
      Seen host cfg binary found := by
  have law : ∀ {results}, (chunkRanges binary.length).mapM (scanChunk host cfg binary) = some results →
      ∃ windowed, spans host cfg binary = some windowed ∧
        ((∀ finding, finding ∈ windowed ↔ finding ∈ found) ↔
          (∀ finding ∈ found, Found host cfg binary finding) ∧
            ∀ finding, Found host cfg binary finding → finding ∈ found ∨ Touched found finding) := by
    intro results mapped
    let merged := fun kind => results.flatMap fun kept => kept.filter fun finding => finding.kind = kind
    have mem_merged : ∀ {kind finding}, finding ∈ merged kind ↔ Found host cfg binary finding ∧ finding.kind = kind := by
      intro kind finding
      simp only [merged, List.mem_flatMap, List.mem_filter, decide_eq_true_eq]
      constructor
      · rintro ⟨kept, result, member, same⟩
        obtain ⟨range, window, scanned⟩ := (mapM_mem mapped).mp result
        exact ⟨⟨range, window, kept, scanned, member⟩, same⟩
      · rintro ⟨⟨range, window, kept, scanned, member⟩, same⟩
        exact ⟨kept, (mapM_mem mapped).mpr ⟨range, window, scanned⟩, member, same⟩
    have own : ∀ {finding : Finding}, finding ∈ merged finding.kind ↔ Found host cfg binary finding :=
      mem_merged.trans (and_iff_left rfl)
    refine ⟨sortBy (fun finding => finding.span.start) (claimNonOverlapping (kinds.map merged)), ?_, ?_⟩
    · rw [spans, mapped]
      rfl
    · have claimed := claim_iff (fun kind finding member => (mem_merged.mp member).2 : Sorted merged) free
      simpa only [mem_sortBy, own] using claimed
  constructor
  · rintro ⟨windowed, spanned, same⟩
    obtain ⟨results, mapped, -⟩ := Option.bind_eq_some_iff.mp spanned
    obtain ⟨windowed', spanned', iff⟩ := law mapped
    cases spanned.symm.trans spanned'
    obtain ⟨all, others⟩ := iff.mp same
    exact ⟨fun range window => Option.isSome_iff_exists.mp (mapM_each mapped range window), all, others⟩
  · intro seen
    obtain ⟨results, mapped⟩ := mapM_some fun range window => Option.isSome_iff_exists.mpr (seen.steady range window)
    obtain ⟨windowed, spanned, iff⟩ := law mapped
    exact ⟨windowed, spanned, iff.mpr ⟨seen.all, seen.others⟩⟩

theorem whole_free (scanned : whole host cfg binary = some found) : CrossFree found := by
  obtain ⟨lists, detected, rfl⟩ := Option.map_eq_some_iff.mp scanned
  obtain ⟨lists, rfl, sorted⟩ := detect_sorted detected
  exact claim_free sorted

/-- A text of one window is scanned at once. -/
theorem seen_of_short (short : binary.length ≤ chunkSize) (scanned : whole host cfg binary = some found)
    (inside : ∀ finding ∈ found, finding.span.start < binary.length) : Seen host cfg binary found := by
  obtain ⟨lists, detected, rfl⟩ := Option.map_eq_some_iff.mp scanned
  have text : binaryPart binary (0 : Nat) binary.length = some binary := by
    rw [binaryPart_nat (by omega), List.drop_zero, List.take_length]
  have unmoved : ∀ finding : Finding, finding.shift 0 = finding := by
    intro finding
    simp [Finding.shift]
  have once : scanChunk host cfg binary (0, binary.length) = some (claimNonOverlapping lists) := by
    simp only [scanChunk, text, detected, Option.bind_eq_bind, Option.bind_some, unmoved, List.map_id']
    refine congrArg some (List.filter_eq_self.mpr fun finding member => decide_eq_true ?_)
    have before := inside finding member
    omega
  have only : ∀ range ∈ chunkRanges binary.length, range = (0, binary.length) := by
    intro range window
    rw [chunkRanges, if_pos short] at window
    exact List.mem_singleton.mp window
  refine ⟨fun range window => ⟨_, only range window ▸ once⟩, fun finding member => ?_, ?_⟩
  · exact ⟨_, by rw [chunkRanges, if_pos short]; exact List.mem_singleton_self _, _, once, member⟩
  · rintro finding ⟨range, window, kept, seen, member⟩
    cases (only range window ▸ seen).symm.trans once
    exact .inl member

/-! ## Terms -/

/-- The run is a part of the text, and its token can be made. -/
def Cut (binary : Bytes) (finding : Finding) : Prop :=
  (∃ part, binaryPart binary finding.span.start finding.span.length = some part) ∧ Named finding

/-- The regular expressions do not raise, and every run that is found is a part of the text and can be named. -/
def Readable (host : Host) (cfg : Config) (binary : Bytes) : Prop :=
  ∃ found, spans host cfg binary = some found ∧ ∀ finding ∈ found, Cut binary finding

theorem Cut.stop (cut : Cut binary finding) : 0 ≤ finding.span.stop ∧ finding.span.stop ≤ binary.length := by
  obtain ⟨lower, upper⟩ := binaryPart_some.mp cut.1
  rw [Span.stop]
  omega

theorem splice_cut (spliced : splice host cfg binary done finding = some last) :
    Cut binary finding ∧ last.offset = finding.span.stop := by
  obtain ⟨plain, part, spliced⟩ := Option.bind_eq_some_iff.mp spliced
  obtain ⟨token, minted, spliced⟩ := Option.bind_eq_some_iff.mp spliced
  obtain ⟨chunk, -, same⟩ := Option.bind_eq_some_iff.mp spliced
  obtain ⟨name, known, -⟩ := Option.map_eq_some_iff.mp minted
  cases same
  exact ⟨⟨⟨plain, part⟩, Option.isSome_of_eq_some known⟩, rfl⟩

theorem splice_of_cut (reached : 0 ≤ done.offset ∧ done.offset ≤ binary.length) (cut : Cut binary finding) :
    ∃ last, splice host cfg binary done finding = some last := by
  obtain ⟨⟨plain, part⟩, named⟩ := cut
  obtain ⟨name, known⟩ := Option.isSome_iff_exists.mp named
  obtain ⟨lower, upper⟩ := binaryPart_some.mp ⟨plain, part⟩
  obtain ⟨chunk, gap⟩ : ∃ chunk, between binary done.offset finding.span.start = some chunk := by
    rw [between]
    split
    · exact ⟨[], rfl⟩
    · exact binaryPart_some.mpr ⟨by omega, by omega⟩
  have minted : Pseudonym.token host plain finding.kind cfg.key (finding.pattern.getD (.binary [])) =
      some (Pseudonym.mint host plain finding.kind cfg.key name) := by
    rw [Pseudonym.token, known]
    rfl
  refine Option.isSome_iff_exists.mp ?_
  simp only [splice, part, minted, gap, Option.bind_eq_bind, Option.bind_some]
  rfl

theorem splices_cut (reached : 0 ≤ done.offset ∧ done.offset ≤ binary.length)
    (folded : found.foldlM (splice host cfg binary) done = some last) :
    (∀ finding ∈ found, Cut binary finding) ∧ 0 ≤ last.offset ∧ last.offset ≤ binary.length := by
  induction found generalizing done with
  | nil =>
    cases folded
    exact ⟨fun _ none => absurd none List.not_mem_nil, reached⟩
  | cons finding found ih =>
    obtain ⟨next, one, folded⟩ := Option.bind_eq_some_iff.mp ((List.foldlM_cons ..).symm.trans folded)
    obtain ⟨cut, stop⟩ := splice_cut one
    obtain ⟨cuts, inside⟩ := ih (stop ▸ cut.stop) folded
    exact ⟨List.forall_mem_cons.mpr ⟨cut, cuts⟩, inside⟩

theorem splices_of_cut (reached : 0 ≤ done.offset ∧ done.offset ≤ binary.length)
    (cuts : ∀ finding ∈ found, Cut binary finding) :
    ∃ last, found.foldlM (splice host cfg binary) done = some last := by
  induction found generalizing done with
  | nil => exact ⟨done, rfl⟩
  | cons finding found ih =>
    obtain ⟨cut, cuts⟩ := List.forall_mem_cons.mp cuts
    obtain ⟨next, one⟩ := @splice_of_cut host cfg binary finding done reached cut
    obtain ⟨last, folded⟩ := ih ((splice_cut one).2 ▸ cut.stop) cuts
    exact ⟨last, (List.foldlM_cons ..).trans (Option.bind_eq_some_iff.mpr ⟨next, one, folded⟩)⟩

theorem redactBinary_isSome : (redactBinary host cfg binary).isSome ↔ Readable host cfg binary := by
  have start : 0 ≤ (({} : Splice).offset) ∧ ({} : Splice).offset ≤ binary.length := ⟨le_refl _, Int.natCast_nonneg _⟩
  rw [redactBinary]
  cases detected : spans host cfg binary with
  | none =>
    refine iff_of_false nofun ?_
    rintro ⟨found, other, -⟩
    cases detected.symm.trans other
  | some found =>
    have exact_ : Readable host cfg binary ↔ ∀ finding ∈ found, Cut binary finding := by
      constructor
      · rintro ⟨found', other, cuts⟩
        cases detected.symm.trans other
        exact cuts
      · exact fun cuts => ⟨found, detected, cuts⟩
    rw [exact_, Option.bind_eq_bind, Option.bind_some]
    split
    case h_1 => exact iff_of_true rfl fun _ none => absurd none List.not_mem_nil
    case h_2 =>
      rw [spans_sorted detected]
      constructor
      · intro redacted
        obtain ⟨redaction, redacted⟩ := Option.isSome_iff_exists.mp redacted
        obtain ⟨last, folded, -⟩ := Option.bind_eq_some_iff.mp redacted
        exact (splices_cut start folded).1
      · intro cuts
        obtain ⟨last, folded⟩ := @splices_of_cut host cfg binary found {} start cuts
        obtain ⟨lower, upper⟩ := (splices_cut start folded).2
        obtain ⟨tail, rest⟩ : ∃ tail, binaryPart binary last.offset (binary.length - last.offset) = some tail :=
          binaryPart_some.mpr ⟨by omega, by omega⟩
        simp only [folded, rest, Option.bind_eq_bind, Option.bind_some]
        rfl

theorem isSome_bind {α β : Type} {first : Option α} {next : α → Option β} {one two : Prop} (starts : first.isSome ↔ one)
    (goes : ∀ value, (next value).isSome ↔ two) : (first >>= next).isSome ↔ one ∧ two := by
  cases first with
  | none => exact iff_of_false nofun fun both => absurd (starts.mpr both.1) nofun
  | some value => exact (goes value).trans (and_iff_right (starts.mp rfl)).symm

theorem isSome_then {α β : Type} {first : Option α} {build : α → β} {one : Prop} (starts : first.isSome ↔ one) :
    (first >>= fun value => some (build value)).isSome ↔ one :=
  (isSome_bind starts fun _ => iff_of_true rfl trivial).trans (and_true one).to_iff

section Walk
variable {κ : Type} [DecidableEq κ]

mutual

/-- The term holds no improper list and no struct but collections of pairs, and its texts can be read. -/
def Walks (host : Host) (cfg : Config) : Term κ → Prop
  | .binary bytes => Readable host cfg bytes
  | .map entries => EntriesWalk host cfg entries
  | .list items => ItemsWalk host cfg items
  | .improper _ _ => False
  | .tuple elements => ItemsWalk host cfg elements
  | .struct none => False
  | .struct (some elements) => ElementsWalk host cfg elements
  | .other _ => True
termination_by structural term => term

def ItemsWalk (host : Host) (cfg : Config) : List (Term κ) → Prop
  | [] => True
  | item :: items => Walks host cfg item ∧ ItemsWalk host cfg items
termination_by structural items => items

def EntriesWalk (host : Host) (cfg : Config) : List (κ × Term κ) → Prop
  | [] => True
  | (_, value) :: entries => Walks host cfg value ∧ EntriesWalk host cfg entries
termination_by structural entries => entries

def ElementsWalk (host : Host) (cfg : Config) : List (Option (κ × Term κ)) → Prop
  | [] => True
  | none :: _ => False
  | some (_, value) :: elements => Walks host cfg value ∧ ElementsWalk host cfg elements
termination_by structural elements => elements

end

mutual

theorem walkRedact_isSome (term : Term κ) (findings : List (List (Finding × Bytes))) :
    (walkRedact host cfg term findings).isSome ↔ Walks host cfg term := by
  cases term with
  | binary bytes => exact isSome_then redactBinary_isSome
  | map entries => exact isSome_then (walkEntries_isSome entries findings)
  | list items => exact isSome_then (walkItems_isSome items findings)
  | improper items tail => exact iff_of_false nofun id
  | tuple elements => exact isSome_then (walkItems_isSome elements findings)
  | struct elements =>
    cases elements with
    | none => exact iff_of_false nofun id
    | some elements => exact isSome_then (walkElements_isSome elements findings)
  | other value => exact iff_of_true rfl trivial
termination_by structural term

theorem walkItems_isSome (items : List (Term κ)) (findings : List (List (Finding × Bytes))) :
    (walkItems host cfg items findings).isSome ↔ ItemsWalk host cfg items := by
  cases items with
  | nil => exact iff_of_true rfl trivial
  | cons item items =>
    refine (isSome_bind (walkItems_isSome items findings) fun walked => ?_).trans and_comm
    exact isSome_then (walkRedact_isSome item walked.2)
termination_by structural items

theorem walkEntries_isSome (entries : List (κ × Term κ)) (findings : List (List (Finding × Bytes))) :
    (walkEntries host cfg entries findings).isSome ↔ EntriesWalk host cfg entries := by
  match entries with
  | [] => exact iff_of_true rfl trivial
  | (key, value) :: entries =>
    refine isSome_bind (walkRedact_isSome value findings) fun walked => ?_
    exact isSome_then (walkEntries_isSome entries walked.2)
termination_by structural entries

theorem walkElements_isSome (elements : List (Option (κ × Term κ))) (findings : List (List (Finding × Bytes))) :
    (walkElements host cfg elements findings).isSome ↔ ElementsWalk host cfg elements := by
  match elements with
  | [] => exact iff_of_true rfl trivial
  | none :: elements => exact iff_of_false nofun id
  | some (key, value) :: elements =>
    refine isSome_bind (walkRedact_isSome value findings) fun walked => ?_
    exact isSome_then (walkElements_isSome elements walked.2)
termination_by structural elements

end

theorem redact_isSome {term : Term κ} : (redact host cfg term).isSome ↔ (cfg.enabled = true → Walks host cfg term) := by
  rw [redact]
  split
  case isTrue enabled => rw [Option.isSome_map, walkRedact_isSome, forall_prop_of_true enabled]
  case isFalse disabled => exact iff_of_true rfl fun enabled => absurd enabled disabled

/-! ## The law of the filter -/

/-- The runs of the text are shorter than what two windows share. -/
def Short (found : List Finding) : Prop := ∀ finding ∈ found, finding.span.length < chunkOverlap

/-- What the filter promises of a text and of a term. -/
structure Redacts (host : Host) (cfg : Config) (binary : Bytes) (term : Term κ) : Prop where
  /-- Every run that is found is hidden behind its token, and every other byte is kept once. -/
  hidden : cfg.enabled = true → Hidden host cfg binary
  /-- The windows find what a scan of the whole text finds. -/
  windows : ∀ found, whole host cfg binary = some found → Short found →
    ∃ windowed, spans host cfg binary = some windowed ∧ ∀ finding, finding ∈ windowed ↔ finding ∈ found
  /-- It does not raise. -/
  steady : (redact host cfg term).isSome

/-- The runs of the text do not overlap, its windows find them and nothing else that no run of a higher priority touches,
and the term is one of those that are walked through. -/
structure Sound (host : Host) (cfg : Config) (binary : Bytes) (term : Term κ) : Prop where
  apart : cfg.enabled = true → Apart host cfg binary
  seen : ∀ found, whole host cfg binary = some found → Short found → Seen host cfg binary found
  walks : cfg.enabled = true → Walks host cfg term

theorem redacts_iff_sound {term : Term κ} : Redacts host cfg binary term ↔ Sound host cfg binary term := by
  constructor
  · intro law
    refine ⟨fun enabled => hidden_iff_apart.mp (law.hidden enabled), fun found scanned short => ?_, redact_isSome.mp law.steady⟩
    exact (spans_iff_seen (whole_free scanned)).mp (law.windows found scanned short)
  · intro sound
    refine ⟨fun enabled => hidden_iff_apart.mpr (sound.apart enabled), fun found scanned short => ?_, ?_⟩
    · exact (spans_iff_seen (whole_free scanned)).mpr (sound.seen found scanned short)
    · exact redact_isSome.mpr sound.walks

end Walk

/-! ## A number in a note -/

def note : Bytes := utf8 "SSN 123-45-6789"

def noteNumber : Bytes := utf8 "123-45-6789"

def noteConfig : Config where
  key := List.replicate 16 0x6b
  long := by decide

def noteNonce : Bytes :=
  [81, 207, 247, 118, 17, 220, 206, 221, 233, 220, 64, 18, 220, 72, 119, 169, 240, 51, 49, 62, 205, 164, 189, 187, 153, 19,
    96, 77, 150, 115, 132, 42]

def noteSealed : Bytes × Bytes :=
  ([248, 200, 48, 137, 29, 69, 117, 63, 157, 153, 121],
    [60, 166, 180, 164, 1, 174, 79, 10, 151, 94, 53, 24, 24, 161, 124, 81])

/-- What the engines give for the note, whatever stands behind its number, and for its redaction. -/
def noteHost : Host where
  scan regex text :=
    if regex = ssn ∧ note.isPrefixOf text then some [[⟨4, 11⟩]]
    else if regex = entropyCandidate ∧ (utf8 "SSN dlt1_").isPrefixOf text then some [[⟨4, text.length - 4⟩]]
    else some []
  dense _ _ := true
  hmac _ text :=
    if text = utf8 "ash_a2a/dlp/aes-256-gcm" then
      [30, 122, 253, 143, 108, 250, 116, 65, 54, 31, 87, 10, 178, 171, 246, 50, 64, 7, 104, 201, 124, 200, 244, 22, 188,
        226, 7, 193, 207, 87, 172, 174]
    else noteNonce
  encrypt _ _ plain _ := if plain = noteNumber then noteSealed else (plain, List.replicate 16 0)
  decrypt _ _ ciphertext _ tag :=
    if (ciphertext, tag) = noteSealed then some noteNumber
    else if ciphertext ≠ noteNumber ∧ tag = List.replicate 16 0 then some ciphertext
    else none

theorem note_spans : spans noteHost noteConfig note = some [⟨.ssn, ⟨4, 11⟩, none⟩] := rfl

theorem note_whole : whole noteHost noteConfig note = some [⟨.ssn, ⟨4, 11⟩, none⟩] := rfl

theorem note_named : Named ⟨.ssn, ⟨4, 11⟩, none⟩ := rfl

theorem note_order : InOrder note.length 0 [⟨.ssn, ⟨4, 11⟩, none⟩] :=
  ⟨by decide, by decide, (by decide : (4 + 11 : Int) ≤ note.length)⟩

theorem note_redacts : Redacts noteHost noteConfig note (.list [.binary note, .other .nil] : Term String) := by
  refine redacts_iff_sound.mpr ⟨fun _ => ⟨_, note_spans, note_order, ?_⟩, ?_, fun _ => ?_⟩
  · exact List.forall_mem_singleton.mpr note_named
  · intro found scanned _
    refine seen_of_short (by decide) scanned ?_
    cases note_whole.symm.trans scanned
    exact List.forall_mem_singleton.mpr (by decide)
  · refine ⟨⟨_, note_spans, List.forall_mem_singleton.mpr ⟨⟨_, rfl⟩, note_named⟩⟩, trivial, trivial⟩

/-! ## A patient with a record number -/

/-- Both patterns of the default set match the number, one with the words before it. -/
def patient : Bytes := utf8 "patient id: MRN1234567"

def patientConfig : Config where
  key := List.replicate 16 0x6b
  long := by decide

def patientHost : Host where
  scan regex _ :=
    if regex.source.startsWith "(?i)\\bMRN" then some [[⟨12, 10⟩]]
    else if regex.source.startsWith "(?i)\\b(?:patient" then some [[⟨0, 22⟩]]
    else some []
  dense _ _ := false
  hmac _ _ := List.replicate 32 0
  encrypt _ _ plain _ := (plain, List.replicate 16 0)
  decrypt _ _ ciphertext _ _ := some ciphertext

/-- The number is found twice, and the second time it is written out again. -/
theorem patient_not_hidden :
    ¬ ∀ (host : Host) (cfg : Config) (binary : Bytes) (term : Term String), Redacts host cfg binary term := by
  intro law
  obtain ⟨found, detected, order, -⟩ := hidden_iff_apart.mp ((law patientHost patientConfig patient (.other .nil)).hidden rfl)
  have twice : (spans patientHost patientConfig patient).map (·.map Finding.span) = some [⟨0, 22⟩, ⟨12, 10⟩] := by
    decide +kernel
  rw [detected, Option.map_some, Option.some.injEq] at twice
  obtain ⟨first, rest, rfl, one, rest_⟩ := List.map_eq_cons_iff.mp twice
  obtain ⟨second, more, rfl, two, -⟩ := List.map_eq_cons_iff.mp rest_
  have behind := order.2.2.1
  rw [one, two] at behind
  exact absurd behind (by decide)

end AshA2A.Security.DLPFilter
