import AshA2A.Proofs.Redaction

/-! What a redacted text is restored to, and when it is redacted no further. -/

namespace AshA2A.Security.DLPFilter
open UniqueBy Pieces Sa2aCrypto

variable {host : Host} {cfg : Config} {binary : Bytes}

/-! ## Tokens -/

/-- AES-256-GCM keeps lengths, and it opens what it sealed and nothing else. -/
structure Sealing (host : Host) : Prop where
  mac : ∀ key text, (host.hmac key text).length = 32
  size : ∀ key nonce plain aad, (host.encrypt key nonce plain aad).1.length = plain.length
  tag : ∀ key nonce plain aad, (host.encrypt key nonce plain aad).2.length = 16
  opens : ∀ key nonce ciphertext aad tag plain,
    host.decrypt key nonce ciphertext aad tag = some plain ↔ host.encrypt key nonce plain aad = (ciphertext, tag)

/-- The characters of a text of one byte each. -/
def letters (bytes : Bytes) : List Char := bytes.map fun byte => Char.ofNat byte.toNat

theorem inToken_alphabet : ∀ char ∈ Base64.alphabet, ∃ byte, String.utf8EncodeChar char = [byte] ∧
    Char.ofNat byte.toNat = char ∧ inToken byte = true := by
  have each : Base64.alphabet.all (fun char => String.utf8EncodeChar char = [char.toUInt8] ∧
      Char.ofNat char.toUInt8.toNat = char ∧ inToken char.toUInt8 = true) = true := by decide
  exact fun char member => ⟨_, of_decide_eq_true (List.all_eq_true.mp each char member)⟩

theorem letters_utf8 {text : String} (known : ∀ char ∈ text.toList, char ∈ Base64.alphabet) :
    letters (utf8 text) = text.toList ∧ (∀ byte ∈ utf8 text, inToken byte = true) := by
  rw [utf8]
  generalize text.toList = chars at known
  induction chars with
  | nil => exact ⟨rfl, fun _ none => absurd none List.not_mem_nil⟩
  | cons char rest ih =>
    obtain ⟨member, known⟩ := List.forall_mem_cons.mp known
    obtain ⟨byte, bytes, same, inside⟩ := inToken_alphabet char member
    obtain ⟨others, all⟩ := ih known
    rw [List.flatMap_cons, bytes, List.singleton_append]
    exact ⟨congrArg₂ List.cons same others, List.forall_mem_cons.mpr ⟨inside, all⟩⟩

theorem equals_code : ∀ code : Fin 256, Char.ofNat code = '=' → code.val = 61 := by decide +kernel

theorem letters_free {bytes : Bytes} (inside : ∀ byte ∈ bytes, inToken byte = true) : '=' ∉ letters bytes := by
  intro member
  obtain ⟨byte, among, same⟩ := List.mem_map.mp member
  have code : byte.toNat = 61 := equals_code ⟨byte.toNat, byte.toNat_lt⟩ same
  have known := inside byte among
  rw [show byte = 61 from UInt8.toNat_inj.mp code] at known
  exact absurd known (by decide)

namespace Pseudonym

variable {key plain name more part extra : Bytes} {kind : Kind} {code : UInt8}

theorem decode_lead (rest : Bytes) : decode (lead ++ rest) = Base64Url.decode (.ofList (letters rest)) := by
  rw [decode, List.take_left, if_pos rfl, List.drop_left]
  rfl

theorem mint_run : ∃ run, mint host plain kind key name = lead ++ run ∧ letters run =
    (Base64.encode (envelope host plain (typeCode kind) key name)).toList ∧ ∀ byte ∈ run, inToken byte = true := by
  obtain ⟨same, inside⟩ := letters_utf8 (@Base64Url.encode_mem (envelope host plain (typeCode kind) key name))
  exact ⟨_, rfl, same, inside⟩

theorem decode_mint : decode (mint host plain kind key name) = some (envelope host plain (typeCode kind) key name) := by
  obtain ⟨run, minted, same, -⟩ := @mint_run host key plain name kind
  rw [minted, decode_lead, same, String.ofList_toList, Base64Url.decode_encode]

/-- What is glued to a token is decoded with it. -/
theorem decode_glued (inside : ∀ byte ∈ extra, inToken byte = true)
    (read : decode (mint host plain kind key name ++ extra) = some binary) :
    ∃ more, binary = envelope host plain (typeCode kind) key name ++ more ∧ (extra ≠ [] → more ≠ []) := by
  obtain ⟨run, minted, same, -⟩ := @mint_run host key plain name kind
  rw [minted, List.append_assoc, decode_lead, letters, List.map_append] at read
  rw [letters] at same
  rw [same] at read
  obtain ⟨more, rfl, grows⟩ := Base64Url.decode_append (letters_free inside) read
  exact ⟨more, rfl, fun some => grows fun none => some (List.map_eq_nil_iff.mp none)⟩

theorem lead_inside : ∀ byte ∈ lead, inToken byte = true := List.all_eq_true.mp (by decide)

/-- A lead before a token is decoded to a code that no token has. -/
theorem decode_leads (inside : ∀ byte ∈ extra, inToken byte = true) (read : decode (lead ++ (lead ++ extra)) = some binary) :
    ∃ rest, binary = 0x76 :: rest := by
  have known : ∀ byte ∈ lead ++ extra, inToken byte = true := by
    intro byte member
    obtain lead | extra := List.mem_append.mp member
    · exact lead_inside byte lead
    · exact inside byte extra
  rw [decode_lead, Base64Url.decode, String.toList_ofList, Base64Url.unpadded_of_free (letters_free known)] at read
  obtain ⟨values, mapped, joined⟩ := Option.bind_eq_some_iff.mp read
  have start : letters (lead ++ extra) = 'd' :: 'l' :: 't' :: '1' :: '_' :: letters extra := by
    rw [letters, List.map_append]
    rfl
  rw [start, show 'd' :: 'l' :: 't' :: '1' :: '_' :: letters extra = ['d', 'l', 't', '1'] ++ '_' :: letters extra from rfl,
    List.mapM_append] at mapped
  obtain ⟨before, one, mapped⟩ := Option.bind_eq_some_iff.mp mapped
  obtain ⟨after, -, same⟩ := Option.bind_eq_some_iff.mp mapped
  cases same
  cases (by decide : ['d', 'l', 't', '1'].mapM Base64.sextet = some [29, 37, 45, 53]).symm.trans one
  obtain ⟨others, -, rfl⟩ := Option.map_eq_some_iff.mp joined
  exact ⟨_, rfl⟩

theorem envelope_eq : envelope host plain code key name = code :: UInt8.ofNat name.length :: (name ++
    (nonce host plain code key name ++
      ((host.encrypt (aesKey host key) (nonce host plain code key name) plain (aad code name)).2 ++
        (host.encrypt (aesKey host key) (nonce host plain code key name) plain (aad code name)).1))) := by
  simp [envelope]

theorem opened_other {rest : Bytes} (unknown : codeType code = none) : opened host key (code :: rest) = none := by
  cases rest with
  | nil => rfl
  | cons length rest =>
    rw [opened, unknown]
    split <;> rfl

theorem opened_decrypts {length : UInt8} {rest : Bytes} (read : opened host key (code :: length :: rest) = some (part, kind)) :
    ((rest.take length.toNat).length = length.toNat ∧ 28 ≤ (rest.drop length.toNat).length) ∧
      host.decrypt (aesKey host key) ((rest.drop length.toNat).take 12) ((rest.drop length.toNat).drop 28)
        (aad code (rest.take length.toNat)) (((rest.drop length.toNat).drop 12).take 16) = some part := by
  simp only [opened] at read
  split at read
  case isFalse => cases read
  case isTrue fits =>
    obtain ⟨known, -, read⟩ := Option.bind_eq_some_iff.mp read
    obtain ⟨plain, decrypted, same⟩ := Option.bind_eq_some_iff.mp read
    cases same
    exact ⟨fits, decrypted⟩

theorem opened_length (sealing : Sealing host) {length : UInt8} {rest : Bytes}
    (read : opened host key (code :: length :: rest) = some (part, kind)) : rest.length = length.toNat + 28 + part.length := by
  obtain ⟨fits, decrypted⟩ := opened_decrypts read
  have size := sealing.size (aesKey host key) ((rest.drop length.toNat).take 12) part (aad code (rest.take length.toNat))
  rw [(sealing.opens ..).mp decrypted] at size
  simp only [List.length_take, List.length_drop] at fits size
  omega

/-- The length of what an envelope with more behind it opens to. -/
theorem opened_size (sealing : Sealing host) (read : opened host key (envelope host plain code key name ++ more) = some (part, kind)) :
    part.length + name.length % 256 = plain.length + name.length + more.length := by
  rw [envelope_eq, List.cons_append, List.cons_append] at read
  have size := opened_length sealing read
  have nonce : (nonce host plain code key name).length = 12 := by
    rw [Pseudonym.nonce, List.length_take, sealing.mac]
    rfl
  simp only [List.length_append, nonce, sealing.tag, sealing.size, UInt8.toNat_ofNat'] at size
  omega

/-- An envelope opens to what was sealed in it, unless the length of the name takes more than a byte. -/
theorem opened_envelope (sealing : Sealing host) (short : name.length ≤ 255) :
    opened host key (envelope host plain (typeCode kind) key name) = some (plain, kind) := by
  have byte : (UInt8.ofNat name.length).toNat = name.length := by
    rw [UInt8.toNat_ofNat']
    exact Nat.mod_eq_of_lt (by omega)
  have nonce : (nonce host plain (typeCode kind) key name).length = 12 := by
    rw [Pseudonym.nonce, List.length_take, sealing.mac]
    rfl
  have known : codeType (typeCode kind) = some kind := by cases kind <;> rfl
  let sealed := host.encrypt (aesKey host key) (Pseudonym.nonce host plain (typeCode kind) key name) plain (aad (typeCode kind) name)
  have tag : sealed.2.length = 16 := sealing.tag ..
  have decrypted := (sealing.opens (aesKey host key) (Pseudonym.nonce host plain (typeCode kind) key name) sealed.1
    (aad (typeCode kind) name) sealed.2 plain).mpr rfl
  have first : ∀ rest : Bytes, (Pseudonym.nonce host plain (typeCode kind) key name ++ rest).drop 12 = rest := fun rest =>
    List.drop_left' nonce
  have second : (Pseudonym.nonce host plain (typeCode kind) key name ++ (sealed.2 ++ sealed.1)).drop 28 = sealed.1 := by
    rw [show 28 = 12 + 16 from rfl, ← List.drop_drop, first, List.drop_left' tag]
  have inside : True ∧ 28 ≤ (Pseudonym.nonce host plain (typeCode kind) key name ++ (sealed.2 ++ sealed.1)).length := by
    simp only [List.length_append, nonce, tag]
    exact ⟨trivial, by omega⟩
  rw [envelope_eq, opened]
  simp only [byte, List.take_left, List.drop_left]
  rw [if_pos inside, known, second, first, List.take_left' nonce, List.take_left' tag, decrypted]
  rfl

end Pseudonym

/-! ## The scan for tokens -/

/-- No token stands in the text. -/
def TokenFree (text : Bytes) : Prop := MarkedRuns.Free Pseudonym.lead inToken text

/-- A token that is revealed gives its plain text, and another stays as it is. -/
def shown (host : Host) (cfg : Config) (token : Bytes) : Bytes :=
  ((Pseudonym.reveal host token cfg.key).map Prod.fst).getD token

/-- What is written for a text when its tokens are revealed. -/
abbrev Restores (host : Host) (cfg : Config) : Bytes → Bytes → Prop :=
  MarkedRuns.Rewrites Pseudonym.lead inToken (shown host cfg)

theorem lead_borderless : ∀ length, 0 < length → length < Pseudonym.lead.length →
    Pseudonym.lead.drop length ≠ Pseudonym.lead.take (Pseudonym.lead.length - length) := by
  have each : ∀ length < 5, 0 < length → Pseudonym.lead.drop length ≠ Pseudonym.lead.take (5 - length) := by decide
  exact fun length positive short => each length short positive

theorem between_nat {first last : Nat} (order : first ≤ last) (inside : last ≤ binary.length) :
    between binary first last = some ((binary.drop first).take (last - first)) := by
  rw [between]
  split
  case isTrue same =>
    have none : last - first = 0 := by omega
    rw [none, List.take_zero]
  case isFalse =>
    have size : (last : Int) - first = (last - first : Nat) := by omega
    rw [size, binaryPart_nat (by omega)]

theorem take_further {first offset more : Nat} (order : first ≤ offset) : (binary.drop first).take (offset + more - first) =
    (binary.drop first).take (offset - first) ++ (binary.drop offset).take more := by
  have size : offset + more - first = (offset - first) + more := by omega
  have start : first + (offset - first) = offset := by omega
  rw [size, List.take_add, List.drop_drop, start]

section Fold
variable {text written : Bytes} {offset read : Nat} {done : Bytes × Int}

/-- The fold over the tokens writes the text with each of them shown. -/
theorem unsplices (restores : Restores host cfg text written) (here : binary.drop offset = text) (inside : offset ≤ binary.length)
    (reached : done.2 = read) (behind : read ≤ offset) (start : read = 0 → done.1 = []) :
    ∃ (last : Bytes × Int) (stop : Nat), (((MarkedRuns.scan Pseudonym.lead inToken 0 offset text).map fun place =>
        (⟨place.1, place.2⟩ : Span)).foldlM (unsplice host cfg binary) done = some last) ∧ last.2 = stop ∧ stop ≤ binary.length ∧
      (stop = 0 → last.1 = []) ∧
      last.1 ++ binary.drop stop = done.1 ++ ((binary.drop read).take (offset - read) ++ written) := by
  induction restores generalizing offset read done with
  | free free =>
    refine ⟨done, read, by rw [MarkedRuns.scan_free free]; rfl, reached, by omega, start, ?_⟩
    have parts := @take_drop binary read (offset - read)
    rw [Nat.add_sub_cancel' behind] at parts
    rw [← here, parts]
  | @mark gap mark rest written passes ends further ih =>
    have size := congrArg List.length here
    simp only [List.length_drop, List.length_append] at size
    have positive := List.length_pos_iff.mpr ends.ne_nil
    let place := offset + gap.length
    have atMark : binary.drop place = mark ++ rest := by rw [← List.drop_drop, here, List.drop_left]
    have atRest : binary.drop (place + mark.length) = rest := by rw [← List.drop_drop, atMark, List.drop_left]
    have token : binaryPart binary place mark.length = some mark := by
      rw [binaryPart_nat (by omega), atMark, List.take_left]
    have chunk : between binary read place = some ((binary.drop read).take (offset - read) ++ gap) := by
      rw [between_nat (by omega) (by omega), take_further behind, here, List.take_left]
    rw [MarkedRuns.scan_passes passes, MarkedRuns.scan_mark ends, List.map_cons, List.foldlM_cons]
    cases revealed : Pseudonym.reveal host mark cfg.key with
    | none =>
      have same : shown host cfg mark = mark := by rw [shown, revealed]; rfl
      have kept : unsplice host cfg binary done ⟨place, mark.length⟩ = some done := by
        simp only [unsplice, token, revealed, Option.bind_eq_bind, Option.bind_some]
        rfl
      obtain ⟨last, stop, folded, ended, bound, first, text⟩ :=
        @ih (place + mark.length) read done atRest (by omega) reached (by omega) start
      refine ⟨last, stop, ?_, ended, bound, first, ?_⟩
      · rw [kept]
        exact folded
      · have upTo : (binary.drop read).take (place + mark.length - read) = (binary.drop read).take (offset - read) ++ (gap ++ mark) := by
          have whole : place + mark.length = offset + (gap ++ mark).length := by
            rw [List.length_append]
            omega
          rw [whole, take_further behind, here, ← List.append_assoc gap, List.take_left]
        rw [text, upTo, same]
        simp only [List.append_assoc]
    | some opened =>
      have plain : shown host cfg mark = opened.1 := by rw [shown, revealed]; rfl
      let next : Bytes × Int := (done.1 ++ ((binary.drop read).take (offset - read) ++ gap) ++ opened.1, (place + mark.length : Nat))
      have step : unsplice host cfg binary done ⟨place, mark.length⟩ = some next := by
        simp only [unsplice, token, revealed, reached, chunk, Option.bind_eq_bind, Option.bind_some]
        rfl
      obtain ⟨last, stop, folded, ended, bound, first, text⟩ :=
        @ih (place + mark.length) (place + mark.length) next atRest (by omega) rfl (le_refl _) (by omega)
      refine ⟨last, stop, ?_, ended, bound, first, ?_⟩
      · rw [step]
        exact folded
      · rw [text, Nat.sub_self, List.take_zero, plain]
        simp only [next, List.append_assoc, List.nil_append]

theorem restoreBinary_restores (restores : Restores host cfg binary written) : restoreBinary host cfg binary = some written := by
  obtain ⟨last, stop, folded, ended, bound, first, text⟩ :=
    @unsplices host cfg binary binary written 0 0 ([], 0) restores rfl (Nat.zero_le _) rfl (le_refl _) fun _ => rfl
  have ordered : sortBy Span.start (tokenScan binary) = tokenScan binary := by
    refine List.Pairwise.insertionSort_eq ?_
    exact List.Pairwise.map _ (fun _ _ before => Int.ofNat_le.mpr before) (MarkedRuns.scan_sorted ..)
  rw [Nat.sub_self, List.take_zero, List.nil_append, List.nil_append] at text
  rw [restoreBinary, ordered, tokenScan, folded, Option.bind_eq_bind, Option.bind_some, ended]
  split
  case isTrue none =>
    have none : stop = 0 := by omega
    rw [first none, none] at text
    rw [← text]
    rfl
  case isFalse =>
    have size : (binary.length : Int) - stop = (binary.length - stop : Nat) := by omega
    rw [size, binaryPart_nat (by omega), List.take_of_length_le (by rw [List.length_drop]), ← text]
    rfl

end Fold
/-! ## The cut of a text -/

section Cutting
variable {pieces : List (Piece UInt8 (Finding × Bytes))} {tail : Bytes}

/-- The text between the runs, the runs themselves and the rest of the text, each as far as they are read. -/
def Cutting (binary : Bytes) : Int → List (Piece UInt8 (Finding × Bytes)) → Bytes → Prop
  | offset, [], tail => binaryPart binary offset (binary.length - offset) = some tail
  | offset, piece :: pieces, tail =>
    between binary offset piece.mark.1.span.start = some piece.gap ∧
      binaryPart binary piece.mark.1.span.start piece.mark.1.span.length = some piece.plain ∧
      Cutting binary piece.mark.1.span.stop pieces tail

/-- The text is cut at the runs that are found, and each of them has its token. -/
structure Cuts (host : Host) (cfg : Config) (binary : Bytes) (pieces : List (Piece UInt8 (Finding × Bytes))) (tail : Bytes) :
    Prop where
  found : spans host cfg binary = some (pieces.map fun piece => piece.mark.1)
  cutting : Cutting binary 0 pieces tail
  tokened : ∀ piece ∈ pieces, Tokened host cfg piece

theorem binaryPart_within {start length : Int} {part : Bytes} (read : binaryPart binary start length = some part) :
    part <:+: binary ∧ part.length = length.natAbs := by
  rw [binaryPart] at read
  split at read
  case isTrue inside =>
    cases read
    refine ⟨(List.take_prefix _ _).isInfix.trans (List.drop_suffix _ _).isInfix, ?_⟩
    rw [List.length_take, List.length_drop]
    omega
  case isFalse => cases read

theorem between_within {first last : Int} {gap : Bytes} (read : between binary first last = some gap) :
    gap <:+: binary ∧ gap.length = (last - first).natAbs := by
  rw [between] at read
  split at read
  case isTrue same =>
    cases read
    exact ⟨List.nil_infix, by rw [same, Int.sub_self]; rfl⟩
  case isFalse => exact binaryPart_within read

theorem Cutting.within {offset : Int} (cutting : Cutting binary offset pieces tail) :
    (∀ piece ∈ pieces, piece.gap <:+: binary) ∧ tail <:+: binary := by
  induction pieces generalizing offset with
  | nil => exact ⟨fun _ none => absurd none List.not_mem_nil, (binaryPart_within cutting).1⟩
  | cons piece pieces ih =>
    obtain ⟨gap, -, rest⟩ := cutting
    obtain ⟨gaps, last⟩ := ih rest
    exact ⟨List.forall_mem_cons.mpr ⟨(between_within gap).1, gaps⟩, last⟩

/-- What is read is as long as the text behind the offset, or longer. -/
theorem Cutting.length {offset : Int} (cutting : Cutting binary offset pieces tail) :
    (binary.length : Int) - offset ≤ (source pieces tail).length := by
  induction pieces generalizing offset with
  | nil =>
    have size := (binaryPart_within cutting).2
    rw [source, size]
    omega
  | cons piece pieces ih =>
    obtain ⟨gap, plain, rest⟩ := cutting
    have gapSize := (between_within gap).2
    have plainSize := (binaryPart_within plain).2
    have restSize := ih rest
    rw [Span.stop] at restSize
    rw [source, List.length_append, List.length_append, gapSize, plainSize]
    omega

/-- It is as long only where the runs come one after the other. -/
theorem Cutting.placed {offset : Nat} (cutting : Cutting binary offset pieces tail)
    (fits : ((source pieces tail).length : Int) ≤ binary.length - offset) : Placed Stands offset pieces := by
  induction pieces generalizing offset with
  | nil => trivial
  | cons piece pieces ih =>
    obtain ⟨gap, plain, rest⟩ := cutting
    have gapSize := (between_within gap).2
    have plainSize := (binaryPart_within plain).2
    have restSize := rest.length
    rw [source, List.length_append, List.length_append] at fits
    rw [Span.stop] at restSize
    have start : piece.mark.1.span.start = (offset + piece.gap.length : Nat) := by omega
    have length : piece.mark.1.span.length = piece.plain.length := by omega
    have stop : piece.mark.1.span.stop = (offset + piece.gap.length + piece.plain.length : Nat) := by
      rw [Span.stop, start, length]
      rfl
    rw [stop] at rest
    refine ⟨?_, ih rest (by omega)⟩
    rw [Stands, ← start, ← length]

theorem Cutting.source_eq {offset : Nat} (cutting : Cutting binary offset pieces tail) (placed : Placed Stands offset pieces)
    (inside : offset ≤ binary.length) : source pieces tail = binary.drop offset := by
  induction pieces generalizing offset with
  | nil =>
    have size : (binary.length : Int) - offset = (binary.length - offset : Nat) := by omega
    rw [Cutting, size, binaryPart_nat (by omega), List.take_of_length_le (by rw [List.length_drop])] at cutting
    exact (Option.some.inj cutting).symm
  | cons piece pieces ih =>
    obtain ⟨gap, plain, rest⟩ := cutting
    obtain ⟨stands, placed⟩ := placed
    have stop : piece.mark.1.span.stop = (offset + piece.gap.length + piece.plain.length : Nat) := by
      rw [stands]
      rfl
    rw [stop] at rest
    rw [stands] at gap plain
    have end_ : offset + piece.gap.length + piece.plain.length ≤ binary.length := by
      have upper := (binaryPart_some.mp ⟨_, plain⟩).2
      dsimp only at upper
      omega
    rw [between_nat (by omega) (by omega), Nat.add_sub_cancel_left] at gap
    rw [binaryPart_nat end_] at plain
    have first := @take_drop binary offset piece.gap.length
    have second := @take_drop binary (offset + piece.gap.length) piece.plain.length
    rw [Option.some.inj gap] at first
    rw [Option.some.inj plain] at second
    rw [source, ih rest placed end_, second, first]

end Cutting
section Splices
variable {pieces : List (Piece UInt8 (Finding × Bytes))} {tail : Bytes} {found : List Finding} {done last : Splice}

theorem splices_cutting (folded : found.foldlM (splice host cfg binary) done = some last)
    (rest : binaryPart binary last.offset (binary.length - last.offset) = some tail) :
    ∃ pieces : List (Piece UInt8 (Finding × Bytes)), (pieces.map fun piece => piece.mark.1) = found ∧
      Cutting binary done.offset pieces tail ∧ ∀ piece ∈ pieces, Tokened host cfg piece := by
  induction found generalizing done with
  | nil =>
    cases folded
    exact ⟨[], rfl, rest, fun _ none => absurd none List.not_mem_nil⟩
  | cons finding found ih =>
    obtain ⟨next, one, folded⟩ := Option.bind_eq_some_iff.mp ((List.foldlM_cons ..).symm.trans folded)
    obtain ⟨plain, part, one⟩ := Option.bind_eq_some_iff.mp one
    obtain ⟨token, minted, one⟩ := Option.bind_eq_some_iff.mp one
    obtain ⟨gap, chunk, same⟩ := Option.bind_eq_some_iff.mp one
    cases same
    obtain ⟨pieces, rfl, cutting, tokened⟩ := ih folded
    exact ⟨⟨gap, plain, token, (finding, token)⟩ :: pieces, rfl, ⟨chunk, part, cutting⟩,
      List.forall_mem_cons.mpr ⟨⟨rfl, minted⟩, tokened⟩⟩

theorem splices_of_cutting (cutting : Cutting binary done.offset pieces tail) (tokened : ∀ piece ∈ pieces, Tokened host cfg piece) :
    ∃ last, (pieces.map fun piece => piece.mark.1).foldlM (splice host cfg binary) done = some last ∧
      binaryPart binary last.offset (binary.length - last.offset) = some tail ∧
      last.redaction.text ++ tail = done.redaction.text ++ target pieces tail ∧
      last.redaction.findings = done.redaction.findings ++ pieces.map Piece.mark := by
  induction pieces generalizing done with
  | nil => exact ⟨done, rfl, cutting, rfl, (List.append_nil _).symm⟩
  | cons piece pieces ih =>
    obtain ⟨gap, plain, cutting⟩ := cutting
    obtain ⟨⟨marked, minted⟩, tokened⟩ := List.forall_mem_cons.mp tokened
    let next : Splice := ⟨⟨done.redaction.text ++ piece.gap ++ piece.token, done.redaction.findings ++ [(piece.mark.1, piece.token)]⟩,
      piece.mark.1.span.stop⟩
    have one : splice host cfg binary done piece.mark.1 = some next := by
      simp only [splice, gap, plain, minted, Option.bind_eq_bind, Option.bind_some]
      rfl
    obtain ⟨last, folded, rest, text, findings⟩ := @ih next cutting tokened
    refine ⟨last, ?_, rest, ?_, ?_⟩
    · rw [List.map_cons, List.foldlM_cons, one]
      exact folded
    · rw [text, target]
      simp only [next, List.append_assoc]
    · rw [findings, List.map_cons, show piece.mark = (piece.mark.1, piece.token) from Prod.ext rfl marked, List.append_assoc,
        List.singleton_append]

/-- A redaction is the text as it is cut, with the tokens in it. -/
theorem redactBinary_iff {redaction : Redaction} : redactBinary host cfg binary = some redaction ↔
    ∃ pieces tail, Cuts host cfg binary pieces tail ∧ redaction = ⟨target pieces tail, pieces.map Piece.mark⟩ := by
  have whole : binaryPart binary 0 (binary.length - 0) = some binary := by
    rw [show (binary.length : Int) - 0 = (binary.length : Nat) from Int.sub_zero _]
    have all := @binaryPart_nat binary 0 binary.length (by omega)
    rwa [List.drop_zero, List.take_length] at all
  have folds : ∀ found, spans host cfg binary = some found → (redactBinary host cfg binary = some redaction ↔
      ∃ last tail, found.foldlM (splice host cfg binary) {} = some last ∧
        binaryPart binary last.offset (binary.length - last.offset) = some tail ∧
        redaction = ⟨last.redaction.text ++ tail, last.redaction.findings⟩) := by
    intro found detected
    rw [redactBinary, detected, Option.bind_eq_bind, Option.bind_some]
    split
    case h_1 =>
      constructor
      · intro same
        cases same
        exact ⟨{}, binary, rfl, whole, rfl⟩
      · rintro ⟨last, tail, folded, rest, rfl⟩
        cases folded
        cases whole.symm.trans rest
        rfl
    case h_2 =>
      rw [spans_sorted detected]
      constructor
      · intro redacted
        obtain ⟨last, folded, redacted⟩ := Option.bind_eq_some_iff.mp redacted
        obtain ⟨tail, rest, same⟩ := Option.bind_eq_some_iff.mp redacted
        cases same
        exact ⟨last, tail, folded, rest, rfl⟩
      · rintro ⟨last, tail, folded, rest, rfl⟩
        simp only [folded, rest, Option.bind_eq_bind, Option.bind_some]
        rfl
  constructor
  · intro redacted
    obtain ⟨found, detected, -⟩ := Option.bind_eq_some_iff.mp redacted
    obtain ⟨last, tail, folded, rest, rfl⟩ := (folds found detected).mp redacted
    obtain ⟨pieces, rfl, cutting, tokened⟩ := splices_cutting folded rest
    obtain ⟨last', folded', rest', text, findings⟩ := splices_of_cutting cutting tokened
    cases folded.symm.trans folded'
    exact ⟨pieces, tail, ⟨detected, cutting, tokened⟩, by rw [text, findings]; rfl⟩
  · rintro ⟨pieces, tail, cuts, rfl⟩
    obtain ⟨last, folded, rest, text, findings⟩ := @splices_of_cutting host cfg binary pieces tail {} cuts.cutting cuts.tokened
    exact (folds _ cuts.found).mpr ⟨last, tail, folded, rest, by rw [text, findings]; rfl⟩

end Splices
/-! ## Tokens in their places -/

section Clear
variable {pieces : List (Piece UInt8 (Finding × Bytes))} {piece : Piece UInt8 (Finding × Bytes)} {tail : Bytes}

/-- The bytes of the name that a token is made with, if it can be made. -/
def patternName (finding : Finding) : Option Bytes := Pseudonym.nameOf (finding.pattern.getD (.binary []))

/-- Each name is as long as its byte can tell, and nothing stands next to a token that is read with it: no lead before it,
and behind it no byte of the alphabet and no other token. -/
def Clear : List (Piece UInt8 (Finding × Bytes)) → Bytes → Prop
  | [], _ => True
  | piece :: pieces, tail =>
    (∀ name, patternName piece.mark.1 = some name → name.length ≤ 255) ∧ ¬ Pseudonym.lead <:+ piece.gap ∧
      (∀ byte ∈ (target pieces tail).head?, inToken byte = false) ∧ Clear pieces tail

/-- Of the parts of the text, what begins with the seal of a run opens to no other than the run. -/
def Tells (host : Host) (cfg : Config) (binary : Bytes) (finding : Finding) (plain : Bytes) : Prop :=
  ∀ name more part kind, patternName finding = some name →
    Pseudonym.opened host cfg.key (Pseudonym.envelope host plain (Pseudonym.typeCode finding.kind) cfg.key name ++ more) =
      some (part, kind) → part <:+: binary → part = plain

theorem Tokened.minted (tokened : Tokened host cfg piece) : ∃ name, patternName piece.mark.1 = some name ∧
    piece.token = Pseudonym.mint host piece.plain piece.mark.1.kind cfg.key name := by
  obtain ⟨name, known, same⟩ := Option.map_eq_some_iff.mp tokened.2
  exact ⟨name, known, same.symm⟩

theorem minted_run {key plain name : Bytes} {kind : Kind} : ∃ run, Pseudonym.mint host plain kind key name = Pseudonym.lead ++ run ∧
    (Pseudonym.envelope host plain (Pseudonym.typeCode kind) key name).length ≤ run.length ∧ run ≠ [] ∧
    ∀ byte ∈ run, inToken byte = true := by
  obtain ⟨run, lead, same, all⟩ := @Pseudonym.mint_run host key plain name kind
  have size : (Pseudonym.envelope host plain (Pseudonym.typeCode kind) key name).length ≤ run.length := by
    have letters := congrArg List.length same
    rw [AshA2A.Security.DLPFilter.letters, List.length_map] at letters
    rw [letters]
    exact Base64Url.length_encode
  refine ⟨run, lead, size, fun none => ?_, all⟩
  rw [Pseudonym.envelope_eq, none] at size
  cases size

/-- A token is longer than what it stands for. -/
theorem mint_size (sealing : Sealing host) {key plain name : Bytes} {kind : Kind} :
    plain.length < (Pseudonym.mint host plain kind key name).length := by
  obtain ⟨run, lead, size, -, -⟩ := @minted_run host key plain name kind
  rw [Pseudonym.envelope_eq] at size
  simp only [List.length_cons, List.length_append, sealing.size] at size
  rw [lead, List.length_append]
  omega

theorem shown_mint (sealing : Sealing host) {name : Bytes} {plain : Bytes} {kind : Kind} (short : name.length ≤ 255) :
    shown host cfg (Pseudonym.mint host plain kind cfg.key name) = plain := by
  rw [shown, Pseudonym.reveal, Pseudonym.decode_mint, Option.bind_some, Pseudonym.opened_envelope sealing short]
  rfl

theorem restores_source (sealing : Sealing host) (gaps : ∀ piece ∈ pieces, TokenFree piece.gap) (last : TokenFree tail)
    (tokened : ∀ piece ∈ pieces, Tokened host cfg piece) (clear : Clear pieces tail) :
    Restores host cfg (target pieces tail) (source pieces tail) := by
  induction pieces with
  | nil => exact .free last
  | cons piece pieces ih =>
    obtain ⟨gap, gaps⟩ := List.forall_mem_cons.mp gaps
    obtain ⟨one, tokened⟩ := List.forall_mem_cons.mp tokened
    obtain ⟨short, apart, stop, clear⟩ := clear
    obtain ⟨name, known, minted⟩ := one.minted
    obtain ⟨run, lead, -, some, all⟩ := @minted_run host cfg.key piece.plain name piece.mark.1.kind
    have ends : MarkedRuns.Ends Pseudonym.lead inToken piece.token (target pieces tail) :=
      ⟨⟨run, minted.trans lead, some, all⟩, stop⟩
    have passes : MarkedRuns.Passes Pseudonym.lead inToken piece.gap (piece.token ++ target pieces tail) := by
      rw [minted, lead, List.append_assoc]
      exact gap.passes lead_borderless apart
    have written := MarkedRuns.Rewrites.mark passes ends (ih gaps tokened clear)
    rw [minted, shown_mint sealing (short name known), ← minted] at written
    exact written

/-- A text whose tokens are all revealed to parts of a text without tokens has them in their places. -/
theorem exists_restores (sealing : Sealing host) (free : TokenFree binary) (gaps : ∀ piece ∈ pieces, TokenFree piece.gap)
    (last : TokenFree tail) (tokened : ∀ piece ∈ pieces, Tokened host cfg piece)
    (tells : ∀ piece ∈ pieces, Tells host cfg binary piece.mark.1 piece.plain) :
    ∃ written, Restores host cfg (target pieces tail) written ∧
      (written <:+: binary → Clear pieces tail ∧ written = source pieces tail) := by
  induction pieces with
  | nil => exact ⟨tail, .free last, fun _ => ⟨trivial, rfl⟩⟩
  | cons piece pieces ih =>
    obtain ⟨gap, gaps⟩ := List.forall_mem_cons.mp gaps
    obtain ⟨one, tokened⟩ := List.forall_mem_cons.mp tokened
    obtain ⟨tell, tells⟩ := List.forall_mem_cons.mp tells
    obtain ⟨name, known, minted⟩ := one.minted
    obtain ⟨run, lead, -, some, all⟩ := @minted_run host cfg.key piece.plain name piece.mark.1.kind
    let glued := (target pieces tail).takeWhile inToken
    let rest := (target pieces tail).dropWhile inToken
    have parts : glued ++ rest = target pieces tail := List.takeWhile_append_dropWhile
    have inside : ∀ byte ∈ glued, inToken byte = true := fun byte member => List.mem_takeWhile_imp member
    have stop : ∀ byte ∈ rest.head?, inToken byte = false := MarkedRuns.head_dropWhile
    by_cases apart : Pseudonym.lead <:+ piece.gap
    · -- the scan finds the lead before the token first
      obtain ⟨start, same⟩ := apart
      have none : ¬ Pseudonym.lead <:+ start := by
        rintro ⟨before, rfl⟩
        rw [← same, List.append_assoc] at gap
        exact absurd (MarkedRuns.Free.outside gap) (by decide)
      let mark := Pseudonym.lead ++ (Pseudonym.lead ++ (run ++ glued))
      have known : ∀ byte ∈ run ++ glued, inToken byte = true := List.forall_mem_append.mpr ⟨all, inside⟩
      have ends : MarkedRuns.Ends Pseudonym.lead inToken mark rest := by
        refine ⟨⟨_, rfl, List.append_ne_nil_of_left_ne_nil (by decide) _, ?_⟩, stop⟩
        exact List.forall_mem_append.mpr ⟨Pseudonym.lead_inside, known⟩
      have startFree : TokenFree start := gap.within (same ▸ (List.prefix_append _ _).isInfix)
      obtain ⟨written, further⟩ := @MarkedRuns.exists_rewrites _ _ Pseudonym.lead inToken (shown host cfg) rest
      have whole : piece.gap ++ (piece.token ++ target pieces tail) = start ++ (mark ++ rest) := by
        rw [← same, minted, lead, ← parts]
        simp only [mark, List.append_assoc]
      have hidden : shown host cfg mark = mark := by
        rw [shown, Pseudonym.reveal]
        cases read : Pseudonym.decode mark with
        | none => rfl
        | some bytes =>
          obtain ⟨more, rfl⟩ := Pseudonym.decode_leads known read
          rw [Option.bind_some, Pseudonym.opened_other (by decide)]
          rfl
      refine ⟨start ++ (shown host cfg mark ++ written), ?_, fun within => ?_⟩
      · rw [target, whole]
        exact .mark (startFree.passes lead_borderless none) ends further
      · rw [hidden] at within
        have among : mark <:+: start ++ (mark ++ written) := ⟨start, written, List.append_assoc ..⟩
        exact absurd (among.trans within) (free.not_mark ends)
    · have ends : MarkedRuns.Ends Pseudonym.lead inToken (piece.token ++ glued) rest := by
        refine ⟨⟨run ++ glued, by rw [minted, lead, List.append_assoc], ?_, List.forall_mem_append.mpr ⟨all, inside⟩⟩, stop⟩
        exact List.append_ne_nil_of_left_ne_nil some _
      have passes : MarkedRuns.Passes Pseudonym.lead inToken piece.gap (piece.token ++ glued ++ rest) := by
        rw [minted, lead, List.append_assoc, List.append_assoc]
        exact gap.passes lead_borderless apart
      obtain ⟨written, further, law⟩ : ∃ written, Restores host cfg rest written ∧
          (glued = [] → written <:+: binary → Clear pieces tail ∧ written = source pieces tail) := by
        by_cases none : glued = []
        · obtain ⟨written, further, law⟩ := ih gaps tokened tells
          rw [none, List.nil_append] at parts
          exact ⟨written, parts ▸ further, fun _ => law⟩
        · obtain ⟨written, further⟩ := @MarkedRuns.exists_rewrites _ _ Pseudonym.lead inToken (shown host cfg) rest
          exact ⟨written, further, fun absent => absurd absent none⟩
      refine ⟨piece.gap ++ (shown host cfg (piece.token ++ glued) ++ written), ?_, fun within => ?_⟩
      · rw [target, ← parts, ← List.append_assoc piece.token]
        exact .mark passes ends further
      · have among : shown host cfg (piece.token ++ glued) <:+: binary :=
          List.IsInfix.trans ⟨piece.gap, written, List.append_assoc ..⟩ within
        have behind : written <:+: binary :=
          List.IsInfix.trans ⟨piece.gap ++ shown host cfg (piece.token ++ glued), [], by simp⟩ within
        cases revealed : Pseudonym.reveal host (piece.token ++ glued) cfg.key with
        | none =>
          rw [shown, revealed] at among
          exact absurd among (free.not_mark ends)
        | some opened =>
          obtain ⟨bytes, read, opens⟩ := Option.bind_eq_some_iff.mp revealed
          rw [minted] at read
          obtain ⟨more, rfl, grows⟩ := Pseudonym.decode_glued inside read
          have plain : shown host cfg (piece.token ++ glued) = opened.1 := by rw [shown, revealed]; rfl
          rw [plain] at among ⊢
          have same : opened.1 = piece.plain := tell name more opened.1 opened.2 known opens among
          have size := Pseudonym.opened_size sealing opens
          rw [same] at size
          have small := Nat.mod_lt name.length (by decide : 0 < 256)
          have empty : more = [] := List.eq_nil_of_length_eq_zero (by have less := Nat.mod_le name.length 256; omega)
          have none : glued = [] := by_contra fun some => grows some empty
          obtain ⟨clear, last⟩ := law none behind
          rw [none, List.nil_append] at parts
          refine ⟨⟨fun other named => ?_, apart, parts ▸ stop, clear⟩, by rw [same, last]; rfl⟩
          cases known.symm.trans named
          omega

end Clear
/-! ## The law of the tokens -/

/-- No window finds a run of its own. -/
def Quiet (host : Host) (cfg : Config) (text : Bytes) : Prop :=
  ∀ range ∈ chunkRanges text.length, scanChunk host cfg text range = some []

theorem spans_nil_iff : spans host cfg binary = some [] ↔ Quiet host cfg binary := by
  have free : CrossFree [] := fun _ none => absurd none List.not_mem_nil
  have empty : spans host cfg binary = some [] ↔
      ∃ windowed, spans host cfg binary = some windowed ∧ ∀ finding, finding ∈ windowed ↔ finding ∈ [] := by
    constructor
    · exact fun none => ⟨[], none, fun _ => Iff.rfl⟩
    · rintro ⟨windowed, spanned, none⟩
      rw [spanned, List.eq_nil_iff_forall_not_mem.mpr fun finding member => List.not_mem_nil ((none finding).mp member)]
  rw [empty, spans_iff_seen free]
  constructor
  · intro seen range window
    obtain ⟨kept, scanned⟩ := seen.steady range window
    cases kept with
    | nil => exact scanned
    | cons finding kept =>
      obtain none | ⟨claimed, none, -⟩ := seen.others finding ⟨range, window, _, scanned, List.mem_cons_self⟩
      · exact absurd none List.not_mem_nil
      · exact absurd none List.not_mem_nil
  · intro quiet
    refine ⟨fun range window => ⟨[], quiet range window⟩, fun _ none => absurd none List.not_mem_nil, ?_⟩
    rintro finding ⟨range, window, kept, scanned, member⟩
    cases (quiet range window).symm.trans scanned
    exact absurd member List.not_mem_nil

/-- What the tokens are for: a text is got back from its redaction, and a redaction is redacted no further. -/
structure Reversible (host : Host) (cfg : Config) (binary : Bytes) : Prop where
  restored : TokenFree binary → ∃ redaction, redactString host cfg binary = some redaction ∧
    restoreString host cfg redaction.text = some binary
  settled : ∀ redaction, redactString host cfg binary = some redaction →
    ∃ again, redactString host cfg redaction.text = some again ∧ again.text = redaction.text

/-- The runs that are found come one after the other, with nothing next to them that is read with their tokens, and
nothing is found where they are replaced. -/
structure Separate (host : Host) (cfg : Config) (binary : Bytes) : Prop where
  clear : TokenFree binary → ∃ pieces tail, Cuts host cfg binary pieces tail ∧ Placed Stands 0 pieces ∧ Clear pieces tail
  quiet : ∀ pieces tail, Cuts host cfg binary pieces tail → Quiet host cfg (target pieces tail)

/-- The tags tell the runs of the text from its other parts. -/
def Telling (host : Host) (cfg : Config) (binary : Bytes) : Prop :=
  ∀ found, spans host cfg binary = some found → ∀ finding ∈ found, ∀ plain,
    binaryPart binary finding.span.start finding.span.length = some plain → Tells host cfg binary finding plain

section Law
variable {pieces : List (Piece UInt8 (Finding × Bytes))} {tail : Bytes}

theorem Cutting.plains {offset : Int} (cutting : Cutting binary offset pieces tail) : ∀ piece ∈ pieces,
    binaryPart binary piece.mark.1.span.start piece.mark.1.span.length = some piece.plain := by
  induction pieces generalizing offset with
  | nil => exact fun _ none => absurd none List.not_mem_nil
  | cons piece pieces ih =>
    obtain ⟨-, plain, rest⟩ := cutting
    exact List.forall_mem_cons.mpr ⟨plain, ih rest⟩

theorem Cuts.free (cuts : Cuts host cfg binary pieces tail) (free : TokenFree binary) :
    (∀ piece ∈ pieces, TokenFree piece.gap) ∧ TokenFree tail := by
  obtain ⟨gaps, last⟩ := cuts.cutting.within
  exact ⟨fun piece member => free.within (gaps piece member), free.within last⟩

theorem Cuts.redacts (cuts : Cuts host cfg binary pieces tail) :
    redactBinary host cfg binary = some ⟨target pieces tail, pieces.map Piece.mark⟩ :=
  redactBinary_iff.mpr ⟨pieces, tail, cuts, rfl⟩

theorem Cuts.restored_iff (sealing : Sealing host) (telling : Telling host cfg binary) (free : TokenFree binary)
    (cuts : Cuts host cfg binary pieces tail) :
    restoreBinary host cfg (target pieces tail) = some binary ↔ Placed Stands 0 pieces ∧ Clear pieces tail := by
  obtain ⟨gaps, last⟩ := cuts.free free
  constructor
  · intro restored
    have tells : ∀ piece ∈ pieces, Tells host cfg binary piece.mark.1 piece.plain := fun piece member =>
      telling _ cuts.found _ (List.mem_map_of_mem member) _ (cuts.cutting.plains piece member)
    obtain ⟨written, restores, law⟩ := exists_restores sealing free gaps last cuts.tokened tells
    cases (restoreBinary_restores restores).symm.trans restored
    obtain ⟨clear, same⟩ := law (List.infix_refl _)
    exact ⟨@Cutting.placed binary pieces tail 0 cuts.cutting (by rw [← same]; omega), clear⟩
  · rintro ⟨placed, clear⟩
    have whole : source pieces tail = binary := @Cutting.source_eq binary pieces tail 0 cuts.cutting placed (Nat.zero_le _)
    have restores := restores_source sealing gaps last cuts.tokened clear
    rw [whole] at restores
    exact restoreBinary_restores restores

theorem Cuts.settled_iff (sealing : Sealing host) :
    (∃ again, redactBinary host cfg binary = some again ∧ again.text = binary) ↔ Quiet host cfg binary := by
  rw [← spans_nil_iff]
  constructor
  · rintro ⟨again, redacted, same⟩
    obtain ⟨pieces, tail, cuts, rfl⟩ := redactBinary_iff.mp redacted
    have longer : ∀ piece ∈ pieces, piece.plain.length < piece.token.length := by
      intro piece member
      obtain ⟨name, -, minted⟩ := (cuts.tokened piece member).minted
      rw [minted]
      exact mint_size sealing
    have grows := @target_longer _ _ pieces tail longer
    have size := cuts.cutting.length
    have text : target pieces tail = binary := same
    rw [text] at grows
    have none : pieces = [] := List.eq_nil_of_length_eq_zero (by omega)
    rw [cuts.found, none]
    rfl
  · intro none
    refine ⟨⟨binary, []⟩, ?_, rfl⟩
    rw [redactBinary, none]
    rfl

end Law

/-! ## A number and what stands behind it -/

theorem note_sealing : Sealing noteHost where
  mac key text := by
    simp only [noteHost]
    split <;> rfl
  size key nonce plain aad := by
    simp only [noteHost]
    split
    case isTrue number => rw [number]; rfl
    case isFalse => rfl
  tag key nonce plain aad := by
    simp only [noteHost]
    split <;> rfl
  opens key nonce ciphertext aad tag plain := by
    have apart : noteSealed.2 ≠ List.replicate 16 0 := by decide
    simp only [noteHost]
    by_cases number : plain = noteNumber
    · rw [if_pos number, number]
      split
      case isTrue sealed => exact iff_of_true rfl sealed.symm
      case isFalse other =>
        refine iff_of_false ?_ fun same => other same.symm
        split
        case isTrue known => exact fun same => known.1 (Option.some.inj same)
        case isFalse => nofun
    · rw [if_neg number]
      split
      case isTrue sealed =>
        refine iff_of_false (fun same => number (Option.some.inj same).symm) fun same => apart ?_
        rw [← sealed, ← same]
      case isFalse =>
        split
        case isTrue known => rw [known.2, Option.some.injEq, Prod.mk.injEq, and_iff_left rfl, eq_comm]
        case isFalse other =>
          refine iff_of_false nofun fun same => other ?_
          rw [Prod.mk.injEq] at same
          exact ⟨same.1 ▸ number, same.2.symm⟩

theorem number_tells : Tells noteHost noteConfig binary ⟨.ssn, ⟨4, 11⟩, none⟩ noteNumber := by
  intro name more part kind known opens _
  cases known
  have envelope : Pseudonym.envelope noteHost noteNumber 2 noteConfig.key [] =
      2 :: 0 :: (noteNonce.take 12 ++ noteSealed.2 ++ noteSealed.1) := by decide
  have tag : (((noteNonce.take 12 ++ noteSealed.2 ++ noteSealed.1 ++ more).drop 12).take 16) = noteSealed.2 := rfl
  have apart : noteSealed.2 ≠ List.replicate 16 0 := by decide
  rw [show Pseudonym.typeCode .ssn = 2 from rfl, envelope] at opens
  obtain ⟨-, decrypted⟩ := Pseudonym.opened_decrypts opens
  simp only [noteHost] at decrypted
  split at decrypted
  case isTrue => exact (Option.some.inj decrypted).symm
  case isFalse =>
    split at decrypted
    case isTrue known => exact absurd (tag.symm.trans known.2) apart
    case isFalse => cases decrypted

/-- The token of the number. -/
def numberToken : Bytes := utf8 "dlt1_AgBRz_d2EdzO3encQBI8prSkAa5PCpdeNRgYoXxR-MgwiR1FdT-dmXk"

def notePiece : Piece UInt8 (Finding × Bytes) :=
  ⟨utf8 "SSN ", noteNumber, numberToken, (⟨.ssn, ⟨4, 11⟩, none⟩, numberToken)⟩

theorem note_cuts : Cuts noteHost noteConfig note [notePiece] [] where
  found := note_spans
  cutting := ⟨by decide, by decide, (by decide : binaryPart note 15 (note.length - 15) = some [])⟩
  tokened := List.forall_mem_singleton.mpr ⟨rfl, by decide⟩

theorem note_telling : Telling noteHost noteConfig note := by
  intro found detected finding member plain part
  cases note_spans.symm.trans detected
  obtain rfl := List.mem_singleton.mp member
  cases (by decide : binaryPart note 4 11 = some noteNumber).symm.trans part
  exact number_tells

/-- The number with a letter behind it. -/
def glued : Bytes := note ++ [0x78]

theorem glued_spans : spans noteHost noteConfig glued = some [⟨.ssn, ⟨4, 11⟩, none⟩] := rfl

theorem glued_telling : Telling noteHost noteConfig glued := by
  intro found detected finding member plain part
  cases glued_spans.symm.trans detected
  obtain rfl := List.mem_singleton.mp member
  cases (by decide : binaryPart glued 4 11 = some noteNumber).symm.trans part
  exact number_tells

theorem glued_free : TokenFree glued := by
  intro before after same
  refine eq_false_of_ne_true fun starts => ?_
  obtain ⟨byte, more, rfl, -⟩ := MarkedRuns.begins_iff.mp starts
  have member : 0x64 ∈ glued := by
    rw [same]
    exact List.mem_append_right _ List.mem_cons_self
  exact absurd member (by decide)

end AshA2A.Security.DLPFilter
