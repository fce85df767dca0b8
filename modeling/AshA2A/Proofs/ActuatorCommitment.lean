import AshA2A.Json.Reading
import AshA2A.Proofs.ActuatorKept
import Mathlib.Data.List.Forall2
import Mathlib.Data.List.ReduceOption

/-! The hash at the end of a chain commits to every line of it. -/

namespace AshA2A

/-! ## Equal values -/

namespace Json

/-- A plain map has every key once. -/
theorem lastWins_nodup (json : Json) : (json.lastWins.entries.map Prod.fst).Nodup := by
  cases json with
  | object entries =>
    rw [lastWins, Json.entries, lastWinsEntries_map, List.map_map]
    exact lastEntries_nodup entries
  | _ => simp [lastWins, Json.entries]

@[simp] theorem normEntries_keys (entries : List (String × Json)) :
    (normEntries entries).map Prod.fst = entries.map Prod.fst := by
  simp [normEntries_map, Function.comp_def]

theorem sorted_perm {first second : List (String × Json)} (distinct : (first.map Prod.fst).Nodup)
    (perm : first.Perm second) :
    (first.mergeSort fun left right => left.1 ≤ right.1) = second.mergeSort fun left right => left.1 ≤ right.1 := by
  have ordered : ∀ entries : List (String × Json),
      (entries.mergeSort fun left right => decide (left.1 ≤ right.1)).Pairwise fun left right => left.1 ≤ right.1 := by
    intro entries
    refine (List.pairwise_mergeSort ?_ ?_ entries).imp fun le => of_decide_eq_true le
    · intro first second third left right
      exact decide_eq_true (String.le_trans (of_decide_eq_true left) (of_decide_eq_true right))
    · intro first second
      simpa using String.le_total first.1 second.1
  have both : (first.mergeSort fun left right => decide (left.1 ≤ right.1)).Perm
      (second.mergeSort fun left right => decide (left.1 ≤ right.1)) :=
    (List.mergeSort_perm ..).trans (perm.trans (List.mergeSort_perm ..).symm)
  refine both.eq_of_pairwise (fun left right member other le ge => ?_) (ordered first) (ordered second)
  have mine : left ∈ first := (List.mergeSort_perm ..).mem_iff.mp member
  have yours : right ∈ first := perm.mem_iff.mpr ((List.mergeSort_perm ..).mem_iff.mp other)
  exact List.inj_on_of_nodup_map distinct mine yours (String.le_antisymm le ge)

/-- Two plain maps are equal that agree on one key and on all the others. -/
theorem same_of_without {first second : Json} {key text : String}
    (one : (first.lastWins.without key).Same (second.lastWins.without key))
    (left : first.lastWins.string? key = some text) (right : second.lastWins.string? key = some text) :
    first.lastWins.Same second.lastWins := by
  have object : ∀ {json : Json}, json.lastWins.string? key = some text →
      ∃ entries, json.lastWins = .object entries ∧ (entries.map Prod.fst).Nodup ∧ (key, .string text) ∈ entries := by
    intro json given
    have distinct := lastWins_nodup json
    cases plain : json.lastWins with
    | object entries =>
      rw [plain] at given distinct
      refine ⟨entries, rfl, distinct, ?_⟩
      simp only [string?, get?, Json.entries] at given
      split at given
      next found =>
        cases given
        have split := List.lookup_eq_some_iff.mp found
        obtain ⟨before, after, same, _⟩ := split
        have member : (key, Json.string text) ∈ entries.reverse := by simp [same]
        exact List.mem_reverse.mp member
      next => cases given
    | _ => simp [plain, string?, get?, Json.entries] at given
  obtain ⟨entries, same, distinct, member⟩ := object left
  obtain ⟨others, same', distinct', member'⟩ := object right
  rw [same, same'] at one ⊢
  have parts : ∀ {entries : List (String × Json)}, (entries.map Prod.fst).Nodup → (key, .string text) ∈ entries →
      (normEntries entries).Perm ((key, .string text) :: normEntries (entries.filter fun entry => entry.1 ≠ key)) := by
    intro entries distinct member
    have whole : entries.Perm ((key, .string text) :: entries.filter fun entry => entry.1 ≠ key) := by
      have nodup : entries.Nodup := List.Nodup.of_map _ distinct
      refine (List.perm_ext_iff_of_nodup nodup ?_).mpr fun entry => ?_
      · exact List.nodup_cons.mpr ⟨by simp, nodup.filter _⟩
      · simp only [List.mem_cons, List.mem_filter, ne_eq, decide_not, Bool.not_eq_eq_eq_not, Bool.not_true,
          decide_eq_false_iff_not]
        constructor
        · intro given
          by_cases named : entry.1 = key
          · exact .inl (List.inj_on_of_nodup_map distinct given member named)
          · exact .inr ⟨given, named⟩
        · rintro (rfl | ⟨given, _⟩)
          · exact member
          · exact given
    rw [normEntries_map, normEntries_map]
    simpa [norm] using whole.map (Prod.map id norm)
  simp only [Same, norm, without, Json.entries, Json.object.injEq] at one ⊢
  have rest : (normEntries (entries.filter fun entry => entry.1 ≠ key)).Perm
      (normEntries (others.filter fun entry => entry.1 ≠ key)) :=
    (List.mergeSort_perm ..).symm.trans (one.symm ▸ List.mergeSort_perm ..)
  refine sorted_perm (by simpa using distinct) ?_
  exact (parts distinct member).trans ((rest.cons _).trans (parts distinct' member').symm)

end Json

/-! ## Texts -/

theorem toList_loop (bytes : ByteArray) (index : Nat) (read : List UInt8) :
    ByteArray.toList.loop bytes index read = read.reverse ++ bytes.data.toList.drop index := by
  fun_induction ByteArray.toList.loop bytes index read with
  | case1 index read within ih =>
    have bound : index < bytes.data.toList.length := within
    have got : bytes.get! index = bytes.data.toList[index] := by
      simp only [ByteArray.get!]
      exact getElem!_pos bytes.data index within
    rw [ih, got, List.drop_eq_getElem_cons bound]
    simp
  | case2 index read beyond =>
    have bound : bytes.data.toList.length ≤ index := Nat.not_lt.mp beyond
    rw [List.drop_eq_nil_of_le bound, List.append_nil]

theorem toUTF8_toList (text : String) : text.toUTF8.toList = text.toByteArray.data.toList :=
  toList_loop text.toByteArray 0 []

theorem toUTF8_injective {first second : String} (same : first.toUTF8.toList = second.toUTF8.toList) :
    first = second := by
  rw [toUTF8_toList, toUTF8_toList] at same
  exact String.toByteArray_inj.mp (ByteArray.ext (Array.toList_inj.mp same))

namespace Actuator

open Sa2aCrypto AppendLog

variable {host : Host}

/-! ## Chains -/

/-- The hash is collision free and is written without a brace; the text of an object opens
with one. -/
structure CollisionFree (host : Host) : Prop where
  sha256 : Function.Injective host.sha256
  bare : ∀ bytes, 0x7b ∉ (host.sha256 bytes).toUTF8.toList
  opens : ∀ entries text, host.library.encode (.object entries) = some text → text.head? = some 0x7b

/-- No two values that differ have one canonical text. -/
def Distinguishes (library : Json.Library) : Prop :=
  ∀ first second text, library.encode first = some text → library.encode second = some text → first.Same second

/-- Two lines of the same hash whose other fields have one canonical text. -/
structure SameLine (host : Host) (first second : Json) : Prop where
  hash : ∃ hash, first.string? "hash" = some hash ∧ second.string? "hash" = some hash
  text : ∃ text, host.library.encode (first.without "hash") = some text ∧
    host.library.encode (second.without "hash") = some text

theorem SameLine.same {first second : Json} (line : SameLine host first second)
    (distinguishes : Distinguishes host.library) (left : ∃ json : Json, json.lastWins = first)
    (right : ∃ json : Json, json.lastWins = second) : first.Same second := by
  obtain ⟨hash, given, other⟩ := line.hash
  obtain ⟨text, encoded, other'⟩ := line.text
  obtain ⟨_, rfl⟩ := left
  obtain ⟨_, rfl⟩ := right
  exact Json.same_of_without (distinguishes _ _ _ encoded other') given other

theorem SameLine.all {first second : List Json} (lines : List.Forall₂ (SameLine host) first second)
    (distinguishes : Distinguishes host.library) (left : ∀ line ∈ first, ∃ json : Json, json.lastWins = line)
    (right : ∀ line ∈ second, ∃ json : Json, json.lastWins = line) : List.Forall₂ Json.Same first second := by
  induction lines with
  | nil => exact .nil
  | cons line lines ih =>
    obtain ⟨plain, left⟩ := List.forall_mem_cons.mp left
    obtain ⟨plain', right⟩ := List.forall_mem_cons.mp right
    exact .cons (line.same distinguishes plain plain') (ih left right)

namespace Ledger

/-- The hash that a chain starts from has no brace either. -/
theorem zero_bare : 0x7b ∉ zero.toUTF8.toList := by decide +kernel

theorem hash_bare {prev hash : String} {body : Json} (collisionFree : CollisionFree host)
    (computed : Ledger.hash host prev body = some hash) : 0x7b ∉ hash.toUTF8.toList := by
  obtain ⟨text, _, rfl⟩ := Option.map_eq_some_iff.mp computed
  exact collisionFree.bare _

theorem links_bare {chain after : Chain} {events : List Json} (collisionFree : CollisionFree host)
    (bare : 0x7b ∉ chain.head.toUTF8.toList) (linked : links host chain events = .ok after) :
    0x7b ∉ after.head.toUTF8.toList := by
  induction events generalizing chain with
  | nil => cases linked; exact bare
  | cons event events ih =>
    simp only [links] at linked
    split at linked
    next middle accepted =>
      obtain ⟨_, _, hash, computed, _, rfl⟩ := link_ok accepted
      exact ih (hash_bare collisionFree computed) linked
    next => cases linked

/-- The first brace parts the hash before from the text behind it. -/
theorem split_brace {left right first second : Bytes} (before : 0x7b ∉ left) (before' : 0x7b ∉ right)
    (opens : first.head? = some 0x7b) (opens' : second.head? = some 0x7b) (same : left ++ first = right ++ second) :
    left = right ∧ first = second := by
  induction left generalizing right with
  | nil =>
    cases right with
    | nil => exact ⟨rfl, same⟩
    | cons byte rest =>
      rw [List.nil_append] at same
      rw [same, List.cons_append, List.head?_cons, Option.some.injEq] at opens
      simp [opens] at before'
  | cons byte left ih =>
    cases right with
    | nil =>
      rw [List.nil_append] at same
      rw [← same, List.cons_append, List.head?_cons, Option.some.injEq] at opens'
      simp [opens'] at before
    | cons other right =>
      simp only [List.cons_append, List.cons.injEq] at same
      obtain ⟨rfl, same⟩ := same
      simp only [List.mem_cons, not_or] at before before'
      obtain ⟨rfl, texts⟩ := ih before.2 before'.2 same
      exact ⟨rfl, texts⟩

theorem hash_injective {prev prev' hash : String} {first second : Json} (collisionFree : CollisionFree host)
    (bare : 0x7b ∉ prev.toUTF8.toList) (bare' : 0x7b ∉ prev'.toUTF8.toList)
    (left : Ledger.hash host prev (first.without "hash") = some hash)
    (right : Ledger.hash host prev' (second.without "hash") = some hash) :
    prev = prev' ∧ ∃ text, host.library.encode (first.without "hash") = some text ∧
      host.library.encode (second.without "hash") = some text := by
  obtain ⟨text, encoded, hashed⟩ := Option.map_eq_some_iff.mp left
  obtain ⟨text', encoded', hashed'⟩ := Option.map_eq_some_iff.mp right
  have same := collisionFree.sha256 (hashed.trans hashed'.symm)
  obtain ⟨prevs, rfl⟩ := split_brace bare bare' (collisionFree.opens _ _ encoded) (collisionFree.opens _ _ encoded')
    same
  exact ⟨toUTF8_injective prevs, text, encoded, encoded'⟩

end Ledger

/-- A chain from the start. -/
def Chain.Derived (host : Host) (chain : Chain) : Prop :=
  Ledger.links host ⟨[], [], Ledger.zero⟩ chain.events = .ok chain

theorem Chain.Derived.bare {chain : Chain} (derived : chain.Derived host) (collisionFree : CollisionFree host) :
    0x7b ∉ chain.head.toUTF8.toList :=
  Ledger.links_bare collisionFree Ledger.zero_bare derived

/-- A chain is the empty one, or it ends with a line that was accepted behind a chain. -/
theorem Chain.Derived.cases {chain : Chain} (derived : chain.Derived host) :
    chain.events = [] ∨ ∃ before line, before.Derived host ∧ chain.events = before.events ++ [line] ∧
      Ledger.link host before line = .ok chain := by
  obtain empty | ⟨events, line, same⟩ := List.eq_nil_or_concat chain.events
  · exact .inl empty
  · unfold Derived at derived
    rw [List.concat_eq_append] at same
    rw [same] at derived
    obtain ⟨before, linked, last⟩ := Ledger.links_prefix derived
    obtain ⟨held, _⟩ := Ledger.links_events linked
    rw [List.nil_append] at held
    refine .inr ⟨before, line, ?_, by rw [same, held], ?_⟩
    · rw [Derived, held]
      exact linked
    · simp only [Ledger.links] at last
      split at last
      next after accepted =>
        cases last
        exact accepted
      next => cases last

/-- Two chains of one length and one head hold the same lines. -/
theorem Chain.Derived.committed {first second : Chain} (collisionFree : CollisionFree host)
    (left : first.Derived host) (right : second.Derived host) (length : first.events.length = second.events.length)
    (head : first.head = second.head) : List.Forall₂ (SameLine host) first.events second.events := by
  generalize counted : first.events.length = count at length
  induction count generalizing first second with
  | zero =>
    rw [List.length_eq_zero_iff.mp counted, List.length_eq_zero_iff.mp length.symm]
    exact .nil
  | succ count ih =>
    obtain empty | ⟨before, line, derived, same, linked⟩ := left.cases
    · simp [empty] at counted
    obtain empty | ⟨before', line', derived', same', linked'⟩ := right.cases
    · simp [empty] at length
    obtain ⟨_, _, hash, computed, given, after⟩ := Ledger.link_ok linked
    obtain ⟨_, _, hash', computed', given', after'⟩ := Ledger.link_ok linked'
    have hashes : hash = hash' := by simpa [after, after'] using head
    subst hashes
    obtain ⟨heads, text⟩ := Ledger.hash_injective collisionFree (derived.bare collisionFree)
      (derived'.bare collisionFree) computed computed'
    rw [same, List.length_append, List.length_singleton] at counted
    rw [same', List.length_append, List.length_singleton] at length
    rw [same, same']
    refine List.rel_append (ih derived derived' heads ?_ ?_) (.cons ⟨⟨hash, given, given'⟩, text⟩ .nil) <;> omega

theorem Ledger.read_lines {file : File Json} {events : List Json} (given : read file = some events) :
    events = file.lines.reduceOption.map Json.lastWins := by
  unfold read at given
  generalize file.lines = lines at given
  induction lines generalizing events with
  | nil => cases given; rfl
  | cons line lines ih =>
    cases line with
    | none => simp at given
    | some line =>
      rw [List.mapM_cons] at given
      obtain ⟨first, same, rest⟩ := Option.bind_eq_some_iff.mp given
      cases same
      obtain ⟨others, decoded, same⟩ := Option.bind_eq_some_iff.mp rest
      cases same
      rw [ih decoded]
      rfl

theorem Ledger.verify_derived {file : File Json} {chain : Chain} (verified : verify host file = .ok chain) :
    chain.Derived host ∧ chain.events = file.lines.reduceOption.map Json.lastWins := by
  obtain ⟨given, _⟩ := verify_events verified
  rw [verify, given] at verified
  exact ⟨verified, read_lines given⟩

theorem Ledger.links_hashes {chain after : Chain} {events : List Json}
    (linked : links host chain events = .ok after) : chain.hashes <+: after.hashes := by
  induction events generalizing chain with
  | nil => cases linked; exact List.prefix_rfl
  | cons event events ih =>
    simp only [links] at linked
    split at linked
    next middle accepted =>
      obtain ⟨_, _, hash, _, _, rfl⟩ := link_ok accepted
      exact (List.prefix_append _ _).trans (ih linked)
    next => cases linked

theorem Chain.Derived.headed {chain : Chain} (derived : chain.Derived host) : chain.Headed :=
  Ledger.links_headed ⟨rfl, rfl⟩ derived

/-- The lines up to the one that is anchored are a chain with the anchored head. -/
theorem Chain.Derived.cut {chain : Chain} {code head : String} {count : Nat} (derived : chain.Derived host)
    (anchored : Anchor.prefixOk code count head chain.hashes = .ok ()) :
    ∃ before : Chain, before.Derived host ∧ before.events = chain.events.take count ∧
      before.events.length = count ∧ before.head = head := by
  have whole := derived
  rw [Derived, ← List.take_append_drop count chain.events] at whole
  obtain ⟨before, linked, rest⟩ := Ledger.links_prefix whole
  obtain ⟨held, _⟩ := Ledger.links_events linked
  rw [List.nil_append] at held
  have first : before.Derived host := by rw [Derived, held]; exact linked
  obtain ⟨counted, ends⟩ := first.headed
  obtain ⟨more, hashes⟩ := Ledger.links_hashes rest
  unfold Anchor.prefixOk at anchored
  split at anchored
  next none =>
    subst none
    split at anchored
    next zero =>
      rw [List.take_zero] at held
      rw [held, List.length_nil, List.length_eq_zero_iff] at counted
      exact ⟨before, first, held, by simp [held], by simp [ends, counted, zero]⟩
    next => cases anchored
  next some =>
    split at anchored
    next found =>
      have bound := (List.getElem?_eq_some_iff.mp found).1
      rw [derived.headed.1] at bound
      have length : before.events.length = count := by
        rw [held, List.length_take]
        omega
      refine ⟨before, first, held, length, ?_⟩
      rw [← hashes, List.getElem?_append_left (by omega)] at found
      rw [ends, List.getLast?_eq_getElem?, counted, length, found]
      rfl
    next => cases anchored

end Actuator

end AshA2A
